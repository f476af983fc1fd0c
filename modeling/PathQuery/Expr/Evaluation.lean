import PathQuery.Expr.Method
import PathQuery.Expr.Operation

/-! Evaluating expressions.
Evaluation never fails: an absent property, an operand that is no number or a conversion that does
not apply have no outcome, and what needs an operand has none without it. -/
namespace PathQuery

/-- The element of a value that a string or a whole number names. -/
def Json.select (key target : Json) : Outcome :=
  match key with
  | .string name => target.property name
  | .number n => (Outcome.index? (some (.number n))).bind fun i => target.element i
  | _ => none

/-- Evaluates an expression. Of the arguments of a call only the first one counts. -/
def Expr.eval (current root : Json) : Expr → Outcome
  | .literal l => some l.value
  | .current => some current
  | .root => some root
  | .property target name => (eval current root target).bind (Json.property name)
  | .element target index =>
    (eval current root target).bind fun v =>
      (eval current root index).bind fun key => key.select v
  | .call target m [] => (eval current root target).bind fun v => m.call v none
  | .call target m (arg :: _) =>
    (eval current root target).bind fun v => m.call v (eval current root arg)
  | .coerce c arg => (eval current root arg).bind c.convert
  | .unary op arg => op.apply (eval current root arg)
  | .binary op lhs rhs => op.apply (eval current root lhs) (eval current root rhs)

end PathQuery
