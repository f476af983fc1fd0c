import PathQuery.Proofs.Execution.Shape

/-! Replacing `@` in an expression.
What `@` stands for can be computed by another expression: with this one put in the place of every
`@`, an expression comes to what it comes to on the value computed. Two maps in a row are therefore
one, as long as no value between them is absent or an array, which the second map would go into. -/
namespace PathQuery

mutual

/-- The expression with `t` in the place of every `@`, in arguments too. -/
def Expr.subst (e t : Expr) : Expr :=
  match e with
  | .literal l => .literal l
  | .current => t
  | .root => .root
  | .property target name => .property (target.subst t) name
  | .element target index => .element (target.subst t) (index.subst t)
  | .call target m args => .call (target.subst t) m (Expr.substAll args t)
  | .coerce c arg => .coerce c (arg.subst t)
  | .unary op arg => .unary op (arg.subst t)
  | .binary op lhs rhs => .binary op (lhs.subst t) (rhs.subst t)

def Expr.substAll (es : List Expr) (t : Expr) : List Expr :=
  match es with
  | [] => []
  | e :: es => e.subst t :: Expr.substAll es t

end

variable {e t : Expr} {root : Json}

/-- Putting an expression in the place of `@` and evaluating it first are the same. -/
theorem Expr.eval_subst {current v : Json} (h : t.eval current root = some v) :
    (e.subst t).eval current root = e.eval v root := by
  fun_induction Expr.eval v root e with
  | case1 l => rfl
  | case2 => exact h
  | case3 => rfl
  | case4 target name ih => rw [subst, eval, ih]
  | case5 target index iht ihi => rw [subst, eval, iht, ihi]
  | case6 target m ih => rw [subst, substAll, eval, ih]
  | case7 target m arg args iht iha => rw [subst, substAll, eval, iht, iha]
  | case8 c arg ih => rw [subst, eval, ih]
  | case9 op arg ih => rw [subst, eval, ih]
  | case10 op lhs rhs ihl ihr => rw [subst, eval, ihl, ihr]

namespace Step

variable {found : List Json} {p : Progress}

/-- Values that a later map takes as they are: an expression gives one, and it is not an array. -/
def MapsWhole (root : Json) (t : Expr) (values : List Json) : Prop :=
  ∀ c ∈ values, ∃ w, t.eval c root = some w ∧ w.isArray = false

theorem any_isArray_map (h : MapsWhole root t (found.flatMap Json.candidates)) :
    ((map t).select root found).any Json.isArray = false := by
  rw [List.any_eq_false]
  intro w hw
  obtain ⟨c, hc, rfl⟩ := List.mem_map.mp hw
  obtain ⟨w, heval, harray⟩ := h c hc
  simp [heval, harray]

theorem select_map_map (h : MapsWhole root t (found.flatMap Json.candidates)) :
    (map e).select root ((map t).select root found) = (map (e.subst t)).select root found := by
  have hwhole : ((map t).select root found).flatMap Json.candidates =
      (found.flatMap Json.candidates).map fun c => (t.eval c root).getD .null :=
    flatMap_candidates (any_isArray_map h)
  have heach : ∀ c ∈ found.flatMap Json.candidates,
      (e.eval ((t.eval c root).getD .null) root).getD .null =
        ((e.subst t).eval c root).getD .null := by
    intro c hc
    obtain ⟨w, heval, _⟩ := h c hc
    rw [Expr.eval_subst heval, heval, Option.getD_some]
  calc (map e).select root ((map t).select root found)
      = ((found.flatMap Json.candidates).map fun c => (t.eval c root).getD .null).map
          fun w => (e.eval w root).getD .null := by rw [← hwhole]; rfl
    _ = (found.flatMap Json.candidates).map fun c => ((e.subst t).eval c root).getD .null := by
        rw [List.map_map]
        exact List.map_congr_left heach
    _ = (map (e.subst t)).select root found := rfl

/-- An expression put in the place of every `@` does what it does when `@` is bound to its value. Two
maps in a row find what the one map of the substituted expression finds, and leave the same shape,
if the first one gives a value that is not an array everywhere. -/
theorem eval_subst_and_run_maps (e t : Expr) (root : Json) :
    (∀ current v, t.eval current root = some v →
      (e.subst t).eval current root = e.eval v root) ∧
    ∀ p : Progress, MapsWhole root t (p.found.flatMap Json.candidates) →
      run root [map t, map e] p = run root [map (e.subst t)] p := by
  refine ⟨fun current v h => Expr.eval_subst h, fun p h => ?_⟩
  have hfound : (map e).select root ((map t).select root p.found) =
      (map (e.subst t)).select root p.found := select_map_map h
  have hshape : (map e).reshape ((map t).select root p.found) ((map t).reshape p.found p.shape) =
      (map (e.subst t)).reshape p.found p.shape := by
    rw [reshape, any_isArray_map h]
    rfl
  simp only [run, List.foldl_cons, List.foldl_nil, advance, hfound, hshape]

/-- A property in the place of `@`, in the target of a call and in its argument. -/
theorem eval_subst_and_run_maps_sample :
    let t : Expr := .property .current "a"
    let e : Expr := .call (.property .current "b") .includes [.property .current "c"]
    let v : Json := .object [("b", .string "xyz"), ("c", .string "y")]
    let rows : List Json := [.array [.object [("a", v)]]]
    t.eval (.object [("a", v)]) .null = some v ∧
    MapsWhole .null t (rows.flatMap Json.candidates) ∧
    (e.subst t).eval (.object [("a", v)]) .null = some (.bool true) ∧
    (run .null [map t, map e] ⟨rows, .single⟩).found = [.bool true] ∧
    run .null [map t, map e] ⟨rows, .single⟩ = run .null [map (e.subst t)] ⟨rows, .single⟩ := by
  intro t e v rows
  have hvalue : t.eval (.object [("a", v)]) .null = some v := rfl
  have hwhole : MapsWhole .null t (rows.flatMap Json.candidates) := by
    intro c hc
    obtain rfl := List.mem_singleton.mp hc
    exact ⟨v, rfl, rfl⟩
  have hinner : e.eval v .null = some (.bool true) := rfl
  obtain ⟨hsubst, hmaps⟩ := eval_subst_and_run_maps e t .null
  exact ⟨hvalue, hwhole, (hsubst _ v hvalue).trans hinner, rfl, hmaps ⟨rows, .single⟩ hwhole⟩

end Step
end PathQuery
