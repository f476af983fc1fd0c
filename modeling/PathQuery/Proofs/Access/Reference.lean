import PathQuery.Proofs.Access.Chain
import PathQuery.Proofs.Double.Integers

/-! Chains of names and positions in expressions.
An expression that goes along such a chain from the current value comes to the same value as the
steps along this chain. How a name is written, after a point or as a text in brackets, does not
matter. -/
namespace PathQuery

/-- The expression that goes along a selector from what another expression comes to. -/
def Selector.applied (target : Expr) : Selector → Expr
  | .index i => .element target (.literal (.number (.ofInt i)))
  | .name s => .property target s

/-- The expression that goes along a chain from the current value. -/
def Expr.ofChain (chain : List Selector) : Expr := chain.foldl Selector.applied .current

/-- Positions that are still the same integers after they have been doubles. -/
def Selector.Exact : Selector → Prop
  | .index i => i.natAbs < 9000000000000000
  | .name _ => True

/-- The same targets, but with some of the properties written as elements under a text. -/
inductive Expr.Requotes : Expr → Expr → Prop
  | refl (e : Expr) : Requotes e e
  | property {t t' : Expr} (h : Requotes t t') (name : String) :
    Requotes (.property t name) (.property t' name)
  | quoted {t t' : Expr} (h : Requotes t t') (name : String) :
    Requotes (.property t name) (.element t' (.literal (.string name)))
  | element {t t' : Expr} (h : Requotes t t') (index : Expr) :
    Requotes (.element t index) (.element t' index)

namespace Expr

variable {v root : Json}

/-! ## One selector -/

theorem eval_number {i : Int} (h : i.natAbs < 9000000000000000) :
    (literal (.number (.ofInt i))).eval v root = some (.number (.int i)) := by
  simp [eval, Literal.value, Json.ofDouble?, Number.ofDouble?_ofInt h]

theorem index?_int {i : Int} (h : i.natAbs < 9000000000000000) :
    Outcome.index? (some (.number (.int i))) = some i := by
  have hb : i.natAbs ≤ 9007199254740992 := by omega
  rw [Outcome.index?, Number.toDouble, Double.isIntegral_ofInt hb, Double.toInt64_ofInt hb]
  rfl

theorem select_int {i : Int} (h : i.natAbs < 9000000000000000) (w : Json) :
    Json.select (.number (.int i)) w = w.element i := by
  rw [Json.select, index?_int h, Option.bind_some]

theorem eval_applied {s : Selector} (h : s.Exact) (target : Expr) :
    (s.applied target).eval v root = (target.eval v root).bind s.select := by
  cases s with
  | name s => rfl
  | index i =>
    have hi : i.natAbs < 9000000000000000 := h
    have hselect : (fun w : Json => (some (Json.number (.int i))).bind fun key => key.select w) =
        Json.element i := by
      funext w
      rw [Option.bind_some, select_int hi]
    rw [Selector.applied, eval, eval_number hi, hselect]
    rfl

/-! ## A chain -/

theorem eval_foldl_applied {chain : List Selector} (h : ∀ s ∈ chain, s.Exact) (target : Expr) :
    (chain.foldl Selector.applied target).eval v root =
      (target.eval v root).bind fun w => w.follow chain := by
  induction chain generalizing target with
  | nil => simp
  | cons s chain ih =>
    obtain ⟨hs, hchain⟩ := List.forall_mem_cons.mp h
    rw [List.foldl_cons, ih hchain, eval_applied hs, Option.bind_assoc]
    simp only [Json.follow_cons]

theorem eval_ofChain {chain : List Selector} (h : ∀ s ∈ chain, s.Exact) :
    (ofChain chain).eval v root = v.follow chain := by
  rw [ofChain, eval_foldl_applied h, eval, Option.bind_some]

/-- A property and an element under its name are the same. -/
theorem eval_of_requotes {e e' : Expr} (h : e.Requotes e') : e'.eval v root = e.eval v root := by
  induction h with
  | refl e => rfl
  | property _ name ih => rw [eval, eval, ih]
  | quoted _ name ih => rw [eval, eval, ih]; rfl
  | element _ index ih => rw [eval, eval, ih]

/-- Going along a chain in an expression and in steps leads to the same value or nowhere, and it
does not matter how the names are written in the expression. -/
theorem eval_ofChain_iff_found {chain : List Selector} (h : ∀ s ∈ chain, s.Exact) (v root : Json)
    (shape : Shape) :
    let found := (Step.run root (chain.map Selector.step) ⟨[v], shape⟩).found
    (∀ w, (ofChain chain).eval v root = some w ↔ found = [w]) ∧
    ((ofChain chain).eval v root = none ↔ found = []) ∧
    ∀ e, (ofChain chain).Requotes e → e.eval v root = (ofChain chain).eval v root := by
  intro found
  have hfound : found = ((ofChain chain).eval v root).toList := by
    rw [eval_ofChain h]
    cases hf : v.follow chain <;> simp [found, Step.found_run_chain, hf]
  refine ⟨fun w => ?_, ?_, fun e he => eval_of_requotes he⟩
  · rw [hfound, Option.toList_eq_singleton_iff]
  · rw [hfound, Option.toList_eq_nil_iff]

/-- A member, an item and a member under the text of a number. -/
def sampleChain : List Selector := [.name "a", .index 1, .index (-1)]

def sampleDocument : Json :=
  .object [("a", .array [.null, .object [("b", .null), ("-1", .string "x")]])]

theorem eval_ofChain_sample :
    (∀ s ∈ sampleChain, s.Exact) ∧
    (ofChain sampleChain).eval sampleDocument .null = some (.string "x") ∧
    ∀ e, (ofChain sampleChain).Requotes e → e.eval sampleDocument .null = some (.string "x") := by
  have h : ∀ s ∈ sampleChain, s.Exact := by
    simp [sampleChain, Selector.Exact]
  have hfound : (Step.run .null (sampleChain.map Selector.step)
      ⟨[sampleDocument], .single⟩).found = [.string "x"] := by rfl
  obtain ⟨hsome, _, hquotes⟩ := eval_ofChain_iff_found h sampleDocument .null .single
  have heval := (hsome (.string "x")).mpr hfound
  exact ⟨h, heval, fun e he => (hquotes e he).trans heval⟩

end Expr
end PathQuery
