import Mathlib.Tactic.Common
import PathQuery.Expr.Evaluation

/-! Where an absent operand makes the whole expression absent.
Targets, indices and the operands of conversions and of arithmetic are strict: without a value there,
there is none around it, through any number of such places. Comparisons are not strict: they have an
outcome, and take an absent operand to be in no relation to anything. -/
namespace PathQuery

/-- Whether an operator computes with its operands. -/
def BinaryOp.isArithmetic : BinaryOp → Bool
  | .add => true
  | .sub => true
  | .mul => true
  | .div => true
  | _ => false

/-- An expression with one strict place left open. -/
inductive StrictFrame where
  | property (name : String)
  | elementTarget (index : Expr)
  | elementIndex (target : Expr)
  | call (m : Method) (args : List Expr)
  | coerce (c : Coercion)
  | neg
  | leftOf (op : BinaryOp) (h : op.isArithmetic = true) (rhs : Expr)
  | rightOf (op : BinaryOp) (h : op.isArithmetic = true) (lhs : Expr)

namespace StrictFrame

/-- The expression with another one in the open place. -/
def fill (e : Expr) : StrictFrame → Expr
  | property name => .property e name
  | elementTarget index => .element e index
  | elementIndex target => .element target e
  | call m args => .call e m args
  | coerce c => .coerce c e
  | neg => .unary .neg e
  | leftOf op _ rhs => .binary op e rhs
  | rightOf op _ lhs => .binary op lhs e

/-- An expression inside of frames, the innermost of them first. -/
def nest (frames : List StrictFrame) (e : Expr) : Expr := frames.foldl fill e

end StrictFrame

/-! ## Operations -/

namespace Outcome

variable {o o' : Outcome}

theorem numeric_eq_none (f : Double → Double → Double) (h : o = none ∨ o' = none) :
    numeric f o o' = none := by
  rcases h with rfl | rfl
  · rfl
  · cases o with
    | none => rfl
    | some v => simp [numeric]

theorem add_eq_none (h : o = none ∨ o' = none) : add o o' = none := by
  rcases h with rfl | rfl
  · rfl
  · cases o <;> rfl

theorem holds_eq_false (r : Json → Json → Bool) (h : o = none ∨ o' = none) :
    holds r o o' = false := by
  rcases h with rfl | rfl
  · rfl
  · cases o <;> rfl

end Outcome

namespace BinaryOp

variable {op : BinaryOp} {o o' : Outcome}

theorem apply_eq_none (hop : op.isArithmetic = true) (h : o = none ∨ o' = none) :
    op.apply o o' = none := by
  cases op with
  | add => exact Outcome.add_eq_none h
  | sub => exact Outcome.numeric_eq_none Double.sub h
  | mul => exact Outcome.numeric_eq_none Double.mul h
  | div => exact Outcome.numeric_eq_none Double.div h
  | _ => cases hop

theorem apply_eq_false
    (hop : op ∈ [equal, strictEqual, less, greater, lessEqual, greaterEqual])
    (h : o = none ∨ o' = none) : op.apply o o' = some (.bool false) := by
  have hrelation : ∀ r, Outcome.ofBool (o.holds r o') = some (.bool false) :=
    fun r => congrArg Outcome.ofBool (Outcome.holds_eq_false r h)
  cases op with
  | equal => exact hrelation Json.looseEq
  | strictEqual => exact hrelation Json.strictEq
  | less => exact hrelation fun v w => (v.relate? w).any [.lt].contains
  | greater => exact hrelation fun v w => (v.relate? w).any [.gt].contains
  | lessEqual => exact hrelation fun v w => (v.relate? w).any [.lt, .eq].contains
  | greaterEqual => exact hrelation fun v w => (v.relate? w).any [.gt, .eq].contains
  | _ => simp at hop

theorem apply_eq_true (hop : op ∈ [notEqual, strictNotEqual]) (h : o = none ∨ o' = none) :
    op.apply o o' = some (.bool true) := by
  have hrelation : ∀ r, Outcome.ofBool (!o.holds r o') = some (.bool true) :=
    fun r => congrArg (fun b => Outcome.ofBool !b) (Outcome.holds_eq_false r h)
  cases op with
  | notEqual => exact hrelation Json.looseEq
  | strictNotEqual => exact hrelation Json.strictEq
  | _ => simp at hop

end BinaryOp

/-! ## Expressions -/

namespace Expr

variable {e s : Expr} {v root : Json}

/-- One frame around an absent expression. -/
theorem eval_fill (h : e.eval v root = none) (f : StrictFrame) :
    (f.fill e).eval v root = none := by
  cases f with
  | property name => rw [StrictFrame.fill, eval, h, Option.bind_none]
  | elementTarget index => rw [StrictFrame.fill, eval, h, Option.bind_none]
  | elementIndex target =>
    rw [StrictFrame.fill, eval, h]
    cases target.eval v root <;> rfl
  | call m args =>
    cases args with
    | nil => rw [StrictFrame.fill, eval, h, Option.bind_none]
    | cons arg args => rw [StrictFrame.fill, eval, h, Option.bind_none]
  | coerce c => rw [StrictFrame.fill, eval, h, Option.bind_none]
  | neg => rw [StrictFrame.fill, eval, h]; rfl
  | leftOf op hop rhs =>
    rw [StrictFrame.fill, eval]
    exact BinaryOp.apply_eq_none hop (.inl h)
  | rightOf op hop lhs =>
    rw [StrictFrame.fill, eval]
    exact BinaryOp.apply_eq_none hop (.inr h)

/-- All frames around an absent expression. -/
theorem eval_nest (h : s.eval v root = none) (frames : List StrictFrame) :
    (StrictFrame.nest frames s).eval v root = none := by
  induction frames generalizing s with
  | nil => exact h
  | cons f frames ih => exact ih (eval_fill h f)

/-- An expression is absent if what stands in a strict place of it, at any depth, is. Compared with
anything, absent or not, it is neither equal nor before nor after it, and it is unequal to it. -/
theorem absence_propagates (h : s.eval v root = none) (frames : List StrictFrame) :
    let e := StrictFrame.nest frames s
    e.eval v root = none ∧
    (∀ op ∈ [BinaryOp.equal, .strictEqual, .less, .greater, .lessEqual, .greaterEqual], ∀ t,
      (binary op e t).eval v root = some (.bool false) ∧
      (binary op t e).eval v root = some (.bool false)) ∧
    ∀ op ∈ [BinaryOp.notEqual, .strictNotEqual], ∀ t,
      (binary op e t).eval v root = some (.bool true) ∧
      (binary op t e).eval v root = some (.bool true) := by
  intro e
  have he : e.eval v root = none := eval_nest h frames
  refine ⟨he, fun op hop t => ⟨?_, ?_⟩, fun op hop t => ⟨?_, ?_⟩⟩
  · exact BinaryOp.apply_eq_false hop (.inl he)
  · exact BinaryOp.apply_eq_false hop (.inr he)
  · exact BinaryOp.apply_eq_true hop (.inl he)
  · exact BinaryOp.apply_eq_true hop (.inr he)

/-- A missing property inside an index, next to a text that is joined to it, compared with null. -/
theorem absence_propagates_sample :
    let s : Expr := .property .current "missing"
    let frames : List StrictFrame := [.neg, .elementIndex .root, .call .includes [.current],
      .rightOf .add rfl (.literal (.string "x"))]
    let e : Expr := .binary .add (.literal (.string "x"))
      (.call (.element .root (.unary .neg s)) .includes [.current])
    s.eval (.object []) (.array [.null]) = none ∧ StrictFrame.nest frames s = e ∧
    e.eval (.object []) (.array [.null]) = none ∧
    (binary .equal e (.literal .null)).eval (.object []) (.array [.null]) =
      some (.bool false) ∧
    (binary .notEqual s s).eval (.object []) (.array [.null]) = some (.bool true) := by
  intro s frames e
  have hs : s.eval (.object []) (.array [.null]) = none := rfl
  obtain ⟨habsent, hequal, _⟩ := absence_propagates hs frames
  obtain ⟨_, _, hunequal⟩ := absence_propagates hs []
  exact ⟨hs, rfl, habsent, (hequal .equal (by simp) (.literal .null)).1,
    (hunequal .notEqual (by simp) s).1⟩

end Expr
end PathQuery
