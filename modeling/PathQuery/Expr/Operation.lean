import PathQuery.Expr.Basic
import PathQuery.Json.Comparison

/-! The operations that expressions are built with, on the outcomes of their operands.
Arithmetic has an outcome only if both operands read as numbers and the result is finite. Logic and
comparison always have one: an absent operand counts as false and is in no relation to anything. -/
namespace PathQuery

namespace Outcome

/-- A numeric operation on the readings of two values as numbers. -/
def numeric (f : Double → Double → Double) (lhs rhs : Outcome) : Outcome := do
  let x ← (← lhs).toNumber?
  let y ← (← rhs).toNumber?
  Json.ofDouble? (f x y)

/-- Joins the texts if one operand is a string, and adds numbers otherwise. -/
def add : Outcome → Outcome → Outcome
  | some v, some w =>
    if v.isString || w.isString then some (.string (v.text ++ w.text))
    else numeric Double.add (some v) (some w)
  | _, _ => none

/-- Whether a relation holds between two values; it does not where one of them is absent. -/
def holds (r : Json → Json → Bool) : Outcome → Outcome → Bool
  | some v, some w => r v w
  | _, _ => false

/-- Whether two values are in one of the given orders. -/
def ordered (orders : List Ordering) : Outcome → Outcome → Bool :=
  holds fun v w => (v.relate? w).any orders.contains

end Outcome

/-- The outcome of a sign change or a negation. -/
def UnaryOp.apply (op : UnaryOp) (arg : Outcome) : Outcome :=
  match op with
  | .neg => (arg.bind Json.toNumber?).bind fun x => Json.ofDouble? x.neg
  | .not => .ofBool !arg.truthy

/-- The outcome of a binary operation. -/
def BinaryOp.apply (op : BinaryOp) (lhs rhs : Outcome) : Outcome :=
  match op with
  | .or => .ofBool (lhs.truthy || rhs.truthy)
  | .and => .ofBool (lhs.truthy && rhs.truthy)
  | .equal => .ofBool (lhs.holds Json.looseEq rhs)
  | .strictEqual => .ofBool (lhs.holds Json.strictEq rhs)
  | .notEqual => .ofBool !(lhs.holds Json.looseEq rhs)
  | .strictNotEqual => .ofBool !(lhs.holds Json.strictEq rhs)
  | .greater => .ofBool (lhs.ordered [.gt] rhs)
  | .less => .ofBool (lhs.ordered [.lt] rhs)
  | .greaterEqual => .ofBool (lhs.ordered [.gt, .eq] rhs)
  | .lessEqual => .ofBool (lhs.ordered [.lt, .eq] rhs)
  | .add => lhs.add rhs
  | .sub => lhs.numeric Double.sub rhs
  | .mul => lhs.numeric Double.mul rhs
  | .div => lhs.numeric Double.div rhs

end PathQuery
