import PathQuery.Json.Conversion

/-! Outcomes of evaluation.
There is none where a value is absent or is not a number, and what needs it is then not carried
out; the counted forms report whether it was. -/
namespace PathQuery

/-- The result of evaluating: a value, or none. -/
abbrev Outcome := Option Json

namespace Outcome

def ofBool (b : Bool) : Outcome := some (.bool b)

/-- Whether an outcome counts as true; an absent one does not. -/
def truthy (o : Outcome) : Bool := o.any Json.truthy

/-- The integer that an outcome denotes, if it is a whole number, kept within 64 bits. -/
def index? : Outcome → Option Int
  | some (.number n) => if n.toDouble.isIntegral then some n.toDouble.toInt64 else none
  | _ => none

/-- Continues with the value, if there is one; also how often the continuation ran. -/
def bindCounted (o : Outcome) (f : Json → Outcome) : Outcome × Nat :=
  match o with
  | some v => (f v, 1)
  | none => (none, 0)

/-- Maps the value, if there is one; also how often the function ran. -/
def mapCounted (o : Outcome) (f : Json → Json) : Outcome × Nat :=
  match o with
  | some v => (some (f v), 1)
  | none => (none, 0)

end Outcome
end PathQuery
