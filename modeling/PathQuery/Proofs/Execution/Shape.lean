import Mathlib.Data.List.Induction
import PathQuery.Step.Execution

/-! The shape of a result.
Steps that neither fan out nor build anything leave the shape as it is, so the last of the others
decides how the matches are handed back. Where the result is a single match there is never a second
one to drop. -/
namespace PathQuery.Step

/-- Whether a step is a member access, a conversion or a map that goes through no array. -/
def neutral (step : Step) (found : List Json) : Bool :=
  match step with
  | .member _ => true
  | .coerce _ => true
  | .map _ => !found.any Json.isArray
  | _ => false

/-- Steps, each with the values that were found before it. -/
def trail (root : Json) (p : Progress) : List Step → List (Step × List Json)
  | [] => []
  | s :: steps => (s, p.found) :: trail root (advance root p s) steps

/-- The last step that is not neutral on the values found before it. -/
def decisive? (root : Json) (p : Progress) (steps : List Step) : Option Step :=
  ((trail root p steps).filter fun t => !t.1.neutral t.2).getLast?.map Prod.fst

/-- The shape that a decisive step leads to. -/
def shapeAfter : Option Step → Shape
  | none => .single
  | some .root => .single
  | some (.tuple _) => .constructed
  | some (.record _) => .constructed
  | some _ => .sequence

variable {root : Json} {p : Progress} {s : Step} {steps : List Step} {found : List Json}

/-! ## One step -/

theorem flatMap_candidates (h : found.any Json.isArray = false) :
    found.flatMap Json.candidates = found := by
  induction found with
  | nil => rfl
  | cons v vs ih =>
    obtain ⟨hv, hvs⟩ : v.isArray = false ∧ vs.any Json.isArray = false := by simpa using h
    have hc : v.candidates = [v] := by
      cases v <;> first | rfl | cases hv
    rw [List.flatMap_cons, hc, ih hvs]
    rfl

theorem length_select_of_neutral (h : s.neutral found = true) :
    (s.select root found).length ≤ found.length := by
  cases s with
  | member name => exact List.length_filterMap_le _ _
  | coerce c => simp [select]
  | map e =>
    have ha : found.any Json.isArray = false := by simpa [neutral] using h
    simp [select, flatMap_candidates ha]
  | _ => cases h

theorem reshape_of_neutral (h : s.neutral found = true) (shape : Shape) :
    s.reshape found shape = shape := by
  cases s with
  | member name => rfl
  | coerce c => rfl
  | map e =>
    have ha : found.any Json.isArray = false := by simpa [neutral] using h
    simp [reshape, ha]
  | _ => cases h

theorem reshape_of_not_neutral (h : s.neutral found = false) (shape : Shape) :
    s.reshape found shape = shapeAfter (some s) := by
  cases s with
  | member name => cases h
  | coerce c => cases h
  | map e =>
    have ha : found.any Json.isArray = true := by simpa [neutral] using h
    simp [reshape, ha, shapeAfter]
  | _ => rfl

theorem length_select_of_single (h : shapeAfter (some s) = .single) :
    (s.select root found).length ≤ 1 := by
  cases s with
  | root => exact Nat.le_refl 1
  | _ => cases h

/-! ## All steps -/

theorem trail_append (steps more : List Step) :
    trail root p (steps ++ more) = trail root p steps ++ trail root (run root steps p) more := by
  induction steps generalizing p with
  | nil => rfl
  | cons s steps ih => exact congrArg ((s, p.found) :: ·) ih

theorem run_append_singleton :
    run root (steps ++ [s]) p = advance root (run root steps p) s := by
  simp [run]

theorem decisive?_append_singleton :
    decisive? root p (steps ++ [s]) =
      if s.neutral (run root steps p).found then decisive? root p steps else some s := by
  unfold decisive?
  rw [trail_append, List.filter_append]
  cases hn : s.neutral (run root steps p).found <;> simp [trail, hn]

/-- What holds after every step: the decisive step gives the shape, and a single match is alone. -/
structure Settled (decisive : Option Step) (p : Progress) : Prop where
  shape : p.shape = shapeAfter decisive
  alone : p.shape = .single → p.found.length ≤ 1

theorem settled_advance {decisive : Option Step} (h : Settled decisive p) :
    Settled (if s.neutral p.found then decisive else some s) (advance root p s) := by
  cases hn : s.neutral p.found with
  | true =>
    have hshape : (advance root p s).shape = p.shape := reshape_of_neutral hn p.shape
    refine ⟨by rw [hshape]; exact h.shape, fun hs => ?_⟩
    exact Nat.le_trans (length_select_of_neutral hn) (h.alone (hshape ▸ hs))
  | false =>
    have hshape : (advance root p s).shape = shapeAfter (some s) :=
      reshape_of_not_neutral hn p.shape
    exact ⟨hshape, fun hs => length_select_of_single (hshape ▸ hs)⟩

theorem settled_run (root : Json) (steps : List Step) :
    Settled (decisive? root .start steps) (run root steps .start) := by
  induction steps using List.reverseRecOn with
  | nil => exact ⟨rfl, fun _ => Nat.zero_le 1⟩
  | append_singleton steps s ih =>
    rw [run_append_singleton, decisive?_append_singleton]
    exact settled_advance ih

/-! ## The result -/

theorem result_of_single (h : p.shape = .single) : p.result = p.found.head?.getD .null := by
  obtain ⟨found, shape⟩ := p
  cases h
  cases found <;> rfl

theorem result_of_sequence (h : p.shape = .sequence) : p.result = .array p.found := by
  obtain ⟨found, shape⟩ := p
  cases h
  rfl

theorem result_of_constructed (h : p.shape = .constructed) :
    p.result = match p.found with | [v] => v | vs => .array vs := by
  obtain ⟨found, shape⟩ := p
  cases h
  rcases found with _ | ⟨v, _ | ⟨w, vs⟩⟩ <;> rfl

/-- No match found at the end is dropped. The last step that is not neutral decides whether the
result is the only match or null, the match itself if there is exactly one, or the array of all. -/
theorem execute_eq_by_decisive (root : Json) (steps : List Step) :
    let final := (run root steps .start).found
    match decisive? root .start steps with
    | none => final.length ≤ 1 ∧ execute steps root = final.head?.getD .null
    | some .root => final.length ≤ 1 ∧ execute steps root = final.head?.getD .null
    | some (.tuple _) => execute steps root = match final with | [v] => v | vs => .array vs
    | some (.record _) => execute steps root = match final with | [v] => v | vs => .array vs
    | some _ => execute steps root = .array final := by
  intro final
  obtain ⟨hshape, halone⟩ := settled_run root steps
  generalize decisive? root .start steps = decisive at hshape ⊢
  cases decisive with
  | none => exact ⟨halone hshape, result_of_single hshape⟩
  | some k =>
    cases k with
    | root => exact ⟨halone hshape, result_of_single hshape⟩
    | tuple keys => exact result_of_constructed hshape
    | record keys => exact result_of_constructed hshape
    | _ => exact result_of_sequence hshape

end PathQuery.Step
