import PathQuery.Proofs.Access.Chain
import PathQuery.Proofs.Expr.Mention

/-! What a path depends on.
After a chain of names, steps that do not go back to the root see nothing of the document but the
value at the end of the chain. -/
namespace PathQuery.Step

/-- Whether a step goes back to the root, by itself or in an expression. -/
def mentionsRoot : Step → Bool
  | .root => true
  | .filter e => e.mentions .root
  | .map e => e.mentions .root
  | .computed e => e.mentions .root
  | _ => false

variable {s : Step} {steps : List Step} {root root' : Json}

theorem eval_of_not_mentions {e : Expr} (h : e.mentions .root = false) (v root root' : Json) :
    e.eval v root = e.eval v root' := by
  refine Expr.eval_congr ⟨fun _ => rfl, fun hm => ?_⟩
  rw [h] at hm
  cases hm

theorem select_of_not_mentionsRoot (h : s.mentionsRoot = false) (found : List Json) :
    s.select root found = s.select root' found := by
  cases s with
  | root => cases h
  | filter e => simp only [select, eval_of_not_mentions h _ root root']
  | map e => simp only [select, eval_of_not_mentions h _ root root']
  | computed e => simp only [select, eval_of_not_mentions h _ root root']
  | _ => rfl

theorem run_of_not_mentionsRoot (h : ∀ s ∈ steps, s.mentionsRoot = false) (p : Progress) :
    run root steps p = run root' steps p := by
  induction steps generalizing p with
  | nil => rfl
  | cons s steps ih =>
    obtain ⟨hs, hsteps⟩ := List.forall_mem_cons.mp h
    rw [run_cons, run_cons, ih hsteps, advance, advance, select_of_not_mentionsRoot hs]

/-- After a chain of names the value at its end is all that has been found. -/
theorem run_root_names (names : List String) (p : Progress) :
    run root (.root :: names.map .member) p =
      ⟨(root.follow (names.map .name)).toList, .single⟩ := by
  have hsteps : names.map Step.member = (names.map Selector.name).map Selector.step := by
    simp [Selector.step, Function.comp_def]
  have hfound : (run root (names.map .member) ⟨[root], .single⟩).found =
      (root.follow (names.map .name)).toList := by
    rw [hsteps, found_run_chain]
    cases h : root.follow (names.map .name) <;> simp [h]
  have hshape : (run root (names.map .member) ⟨[root], .single⟩).shape = .single :=
    shape_run_names names _
  show run root (names.map .member) ⟨[root], .single⟩ = _
  generalize run root (names.map .member) ⟨[root], .single⟩ = q at hfound hshape ⊢
  obtain ⟨found, shape⟩ := q
  rw [← hfound, ← hshape]

theorem execute_root_names (names : List String) (document : Json) :
    execute (.root :: names.map .member ++ steps) document =
      (run document steps ⟨(document.follow (names.map .name)).toList, .single⟩).result := by
  rw [execute, run_append, run_root_names]

/-- Steps that do not go back to the root give the same on a document, behind a chain of names, as on
the value at the end of the chain, and so the same on all documents that agree there. -/
theorem execute_behind_names (names : List String)
    (h : ∀ s ∈ steps, s.mentionsRoot = false) :
    (∀ document v, document.follow (names.map .name) = some v →
      execute (.root :: names.map .member ++ steps) document = execute (.root :: steps) v) ∧
    ∀ d d' : Json, d.follow (names.map .name) = d'.follow (names.map .name) →
      execute (.root :: names.map .member ++ steps) d =
        execute (.root :: names.map .member ++ steps) d' := by
  constructor
  · intro document v hv
    rw [execute_root_names, hv]
    exact congrArg Progress.result (run_of_not_mentionsRoot h _)
  · intro d d' hd
    rw [execute_root_names, execute_root_names, hd, run_of_not_mentionsRoot h]

/-- A filter behind two names of a document that holds more than that. -/
theorem execute_behind_names_sample :
    let steps : List Step := [.filter (.property .current "b"), .index 0]
    let inner : Json := .array [.object [("b", .bool true), ("0", .null)]]
    let document : Json := .object [("x", .bool false), ("a", .object [("c", inner)])]
    (∀ s ∈ steps, s.mentionsRoot = false) ∧
    document.follow (["a", "c"].map .name) = some inner ∧
    execute (.root :: ["a", "c"].map .member ++ steps) document = .array [.null] ∧
    execute (.root :: ["a", "c"].map .member ++ steps) document = execute (.root :: steps) inner := by
  intro steps inner document
  have hs : ∀ s ∈ steps, s.mentionsRoot = false := by
    simp [steps, mentionsRoot, Expr.mentions]
  have hfollow : document.follow (["a", "c"].map .name) = some inner := rfl
  exact ⟨hs, hfollow, rfl, (execute_behind_names ["a", "c"] hs).1 document inner hfollow⟩

end PathQuery.Step
