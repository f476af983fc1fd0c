import PathQuery.Proofs.Access.Reference
import PathQuery.Proofs.Expr.Mention

/-! Expressions without `@`.
The root alone decides what such an expression comes to. So it can be evaluated once for all values
found: a filter keeps all candidates or none, a map gives the same value for each of them, and a
computed index is a written one. -/
namespace PathQuery

variable {e : Expr} {root v : Json}

theorem Expr.eval_of_not_mentions_current (h : e.mentions .current = false) (v w root : Json) :
    e.eval v root = e.eval w root := by
  refine Expr.eval_congr ⟨fun hm => ?_, fun _ => rfl⟩
  rw [h] at hm
  cases hm

namespace Step

variable {found : List Json}

theorem select_filter_of_constant (h : ∀ w, e.eval w root = e.eval v root) :
    (filter e).select root found =
      if (e.eval v root).truthy then found.flatMap Json.candidates else [] := by
  rw [select]
  simp only [h]
  split
  next ht => simp [ht]
  next ht => simp [ht]

theorem select_map_of_constant (h : ∀ w, e.eval w root = e.eval v root) :
    (map e).select root found =
      List.replicate (found.flatMap Json.candidates).length ((e.eval v root).getD .null) := by
  rw [select]
  simp only [h]
  exact List.map_const'

theorem select_computed_of_constant (h : ∀ w, e.eval w root = e.eval v root) :
    (computed e).select root found =
      (e.eval v root).index?.elim [] fun i => (index i).select root found := by
  rw [select]
  simp only [h]
  cases (e.eval v root).index? with
  | none => simp
  | some i => rfl

/-- An expression without `@` has one outcome for each root. Steps with it act on all values found as
this outcome, taken at any value, says: a filter keeps every candidate or none, a map finds the same
value as often as there are candidates, and a computed index finds what the index written out does,
or nothing if the outcome is no index. -/
theorem steps_without_current (h : e.mentions .current = false) (root : Json) :
    (∀ v w, e.eval v root = e.eval w root) ∧
    ∀ (v : Json) (p : Progress),
      (run root [filter e] p).found =
        (if (e.eval v root).truthy then p.found.flatMap Json.candidates else []) ∧
      (run root [map e] p).found =
        List.replicate (p.found.flatMap Json.candidates).length ((e.eval v root).getD .null) ∧
      (run root [computed e] p).found =
        (e.eval v root).index?.elim [] fun i => (run root [index i] p).found := by
  have hconstant : ∀ v w, e.eval v root = e.eval w root :=
    fun v w => Expr.eval_of_not_mentions_current h v w root
  refine ⟨hconstant, fun v p => ⟨?_, ?_, ?_⟩⟩
  · exact select_filter_of_constant fun w => hconstant w v
  · exact select_map_of_constant fun w => hconstant w v
  · exact select_computed_of_constant fun w => hconstant w v

/-- A call on the root, with an argument that is taken from there too. -/
theorem steps_without_current_sample :
    let e : Expr := .call (.property .root "word") .indexOf [.property .root "part"]
    let document : Json := .object [("word", .string "xyz"), ("part", .string "y")]
    let p : Progress := ⟨[.array [.null, .bool true], .string "s"], .single⟩
    e.mentions .current = false ∧
    (∀ v, e.eval v document = some (.ofNat 1)) ∧
    (run document [filter e] p).found = [.null, .bool true, .string "s"] ∧
    (run document [map e] p).found = [.ofNat 1, .ofNat 1, .ofNat 1] ∧
    (run document [computed e] p).found = [.bool true] := by
  intro e document p
  have hmentions : e.mentions .current = false := rfl
  have hvalue : e.eval .null document = some (.ofNat 1) := rfl
  obtain ⟨hconstant, hsteps⟩ := steps_without_current hmentions document
  obtain ⟨hfilter, hmap, hcomputed⟩ := hsteps .null p
  have htrue : Outcome.truthy (some (.ofNat 1)) = true := by decide +kernel
  have hindex : Outcome.index? (some (.ofNat 1)) = some 1 := Expr.index?_int (by decide)
  refine ⟨hmentions, fun v => (hconstant v .null).trans hvalue, ?_, ?_, ?_⟩
  · rw [hfilter, hvalue, if_pos htrue]
    rfl
  · rw [hmap, hvalue]
    rfl
  · rw [hcomputed, hvalue, hindex]
    rfl

end Step
end PathQuery
