import Mathlib.Tactic.Common
import PathQuery.Expr.Evaluation

/-! What an expression refers to.
An expression that does not mention `@` comes to the same whatever the current value is, and one
that does not mention `$` whatever the root is. -/
namespace PathQuery

/-- The two values that an expression can refer to. -/
inductive Anchor where
  | current | root
  deriving DecidableEq

mutual

/-- Whether an anchor occurs in an expression, at any depth and in arguments too. -/
def Expr.mentions (a : Anchor) : Expr → Bool
  | .literal _ => false
  | .current => a = .current
  | .root => a = .root
  | .property target _ => target.mentions a
  | .element target index => target.mentions a || index.mentions a
  | .call target _ args => target.mentions a || Expr.anyMentions a args
  | .coerce _ arg => arg.mentions a
  | .unary _ arg => arg.mentions a
  | .binary _ lhs rhs => lhs.mentions a || rhs.mentions a

def Expr.anyMentions (a : Anchor) : List Expr → Bool
  | [] => false
  | e :: es => e.mentions a || Expr.anyMentions a es

end

/-- Two pairs of a current value and a root, equal in those that some expressions mention. -/
structure Expr.Agree (mentioned : Anchor → Bool) (v root v' root' : Json) : Prop where
  current : mentioned .current = true → v = v'
  root : mentioned .root = true → root = root'

namespace Expr

variable {v root v' root' : Json}

theorem Agree.mono {p q : Anchor → Bool} (h : Agree p v root v' root')
    (hq : ∀ a, q a = true → p a = true) : Agree q v root v' root' :=
  ⟨fun hm => h.current (hq _ hm), fun hm => h.root (hq _ hm)⟩

theorem Agree.left {p q : Anchor → Bool} (h : Agree (fun a => p a || q a) v root v' root') :
    Agree p v root v' root' :=
  h.mono fun a ha => by simp [ha]

theorem Agree.right {p q : Anchor → Bool} (h : Agree (fun a => p a || q a) v root v' root') :
    Agree q v root v' root' :=
  h.mono fun a ha => by simp [ha]

/-- Only the anchors that it mentions matter to an expression. -/
theorem eval_congr {e : Expr} (h : Agree (fun a => e.mentions a) v root v' root') :
    e.eval v root = e.eval v' root' := by
  fun_induction Expr.eval v root e with
  | case1 l => rfl
  | case2 => exact congrArg some (h.current rfl)
  | case3 => exact congrArg some (h.root rfl)
  | case4 target name ih => rw [eval, ih h]
  | case5 target index iht ihi => rw [eval, iht h.left, ihi h.right]
  | case6 target m ih => rw [eval, ih h.left]
  | case7 target m arg args iht iha => rw [eval, iht h.left, iha h.right.left]
  | case8 c arg ih => rw [eval, ih h]
  | case9 op arg ih => rw [eval, ih h]
  | case10 op lhs rhs ihl ihr => rw [eval, ihl h.left, ihr h.right]

end Expr
end PathQuery
