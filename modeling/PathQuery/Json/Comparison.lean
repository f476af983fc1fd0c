import PathQuery.Json.Conversion
import PathQuery.Json.Equality

/-! Comparing values: strict and loose equality, and order. -/
namespace PathQuery.Json

/-- Numbers are strictly equal by value, however they are stored; other values by structure. -/
def strictEq : Json → Json → Bool
  | .number a, .number b => a.toDouble.eq b.toDouble
  | a, b => a.same b

/-- Equality of two readings as numbers. -/
def numericEq (a b : Json) : Bool :=
  match a.toNumber?, b.toNumber? with
  | some x, some y => x.eq y
  | _, _ => false

/-- Values of one kind are loosely equal when they are strictly equal. Of different kinds, null and
containers equal nothing, and the others are compared as numbers. -/
def looseEq (a b : Json) : Bool :=
  if a.kind = b.kind then a.strictEq b
  else if a.kind = .null ∨ b.kind = .null then false
  else if a.isContainer || b.isContainer then false
  else numericEq a b

/-- Two strings are in the order of their code points, other values in the order of their readings
as numbers, where both have one. -/
def relate? : Json → Json → Option Ordering
  | .string s, .string t => some (compare s t)
  | a, b =>
    match a.toNumber?, b.toNumber? with
    | some x, some y => x.compare? y
    | _, _ => none

end PathQuery.Json
