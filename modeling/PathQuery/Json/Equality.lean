import PathQuery.Json.Basic

/-! Structural equality of JSON values.
Numbers are equal when they are stored alike with equal values, arrays item by item, and objects
when they have as many members and each member of one has an equal one under its key in the other,
whatever the order. -/
namespace PathQuery

/-- Equality of stored numbers: an integer never equals a float, and the two zero floats are
equal. -/
def Number.same : Number → Number → Bool
  | .int a, .int b => a == b
  | .float x, .float y => x.sameValue y
  | _, _ => false

namespace Json

mutual

/-- Structural equality. -/
def same : Json → Json → Bool
  | .null, .null => true
  | .bool a, .bool b => a == b
  | .number a, .number b => a.same b
  | .string a, .string b => a == b
  | .array as, .array bs => sameItems as bs
  | .object as, .object bs => as.length == bs.length && hasMembers as bs
  | _, _ => false

/-- Equality of lists, item by item. -/
def sameItems : List Json → List Json → Bool
  | [], [] => true
  | a :: as, b :: bs => same a b && sameItems as bs
  | _, _ => false

/-- Whether the second list has every member of the first, up to equality of values. -/
def hasMembers : List (String × Json) → List (String × Json) → Bool
  | [], _ => true
  | (k, a) :: as, bs =>
    (match lookup k bs with
      | some b => same a b
      | none => false) && hasMembers as bs

end

end Json
end PathQuery
