import PathQuery.Json.Basic

/-! Reading a property or an element of a value, and slicing an array. -/
namespace PathQuery.Json

/-- The array position that a property name denotes: digits, perhaps after a plus sign, of a number
below `2^64`. -/
def position? (name : String) : Option Nat :=
  let digits := match name.toList with
    | '+' :: cs => cs
    | cs => cs
  if digits.isEmpty || !digits.all Char.isDigit then none
  else
    let n := Nat.ofDigitChars 10 digits 0
    if n < 18446744073709551616 then some n else none

/-- The property `name`: a member of an object, an element of an array by its position, or the
length of an array or a string. -/
def property (name : String) : Json → Option Json
  | .object members => lookup name members
  | .array items =>
    if name = "length" then some (ofNat items.length)
    else (position? name).bind fun i => items[i]?
  | .string s => if name = "length" then some (ofNat s.length) else none
  | _ => none

/-- The decimal text of an integer. -/
def intText (i : Int) : String :=
  String.ofList ((if i < 0 then ['-'] else []) ++ Nat.toDigits 10 i.natAbs)

/-- The element `i` of an array, counted from 0, or the property that the decimal text of `i` names
on any other value. -/
def element (i : Int) : Json → Option Json
  | .array items => if i < 0 then none else items[i.toNat]?
  | v => v.property (intText i)

/-- The place in a list of `length` items that a slice bound means: negative bounds count from the
end, and both ends are clamped. -/
def bound (length : Nat) (b : Int) : Nat :=
  (if b < 0 then max 0 (length + b) else min b length).toNat

/-- The items from one bound up to another, both of which may be left out; nothing of a value that
is not an array. -/
def slice (start stop : Option Int) : Json → List Json
  | .array items =>
    let lo := (start.map (bound items.length)).getD 0
    let hi := (stop.map (bound items.length)).getD items.length
    (items.take hi).drop lo
  | _ => []

end PathQuery.Json
