import Mathlib.Data.List.Perm.Basic
import PathQuery.Step.Execution

/-! Steps on several matches at once.
A step other than `$` finds from each match what it finds from this match alone, so the matches of a
whole run are those of the runs from the single matches put together. Only a list of several
selectors mixes their order, since it goes through all matches once for every selector. -/
namespace PathQuery.Step
open scoped List

/-- What steps find from some values, one step after the other. -/
def pursue (root : Json) (steps : List Step) (found : List Json) : List Json :=
  steps.foldl (fun vs s => s.select root vs) found

/-- Whether all that is found from an earlier match comes before what is found from a later one. -/
def keepsOrder : Step → Bool
  | .union selectors => selectors.length < 2
  | _ => true

variable {root : Json} {s : Step} {steps : List Step} {found : List Json}

/-! ## One step -/

theorem select_nil (h : s ≠ .root) : s.select root [] = [] := by
  cases s with
  | root => exact absurd rfl h
  | union selectors => simp [select]
  | _ => rfl

theorem perm_select_append (h : s ≠ .root) (vs ws : List Json) :
    (s.select root (vs ++ ws)).Perm (s.select root vs ++ s.select root ws) := by
  cases s with
  | root => exact absurd rfl h
  | union selectors =>
    simp only [select, List.filterMap_append]
    exact (List.flatMap_append_perm selectors _ _).symm
  | _ => simp [select]

theorem select_append (h : s ≠ .root) (ho : s.keepsOrder = true) (vs ws : List Json) :
    s.select root (vs ++ ws) = s.select root vs ++ s.select root ws := by
  cases s with
  | root => exact absurd rfl h
  | union selectors =>
    match selectors, ho with
    | [], _ => rfl
    | [selector], _ => simp [select]
  | _ => simp [select]

theorem perm_select (h : s ≠ .root) (found : List Json) :
    (s.select root found).Perm (found.flatMap fun v => s.select root [v]) := by
  induction found with
  | nil => rw [select_nil h, List.flatMap_nil]
  | cons v vs ih =>
    have hcons : s.select root (v :: vs) ~ s.select root [v] ++ s.select root vs :=
      perm_select_append h [v] vs
    exact hcons.trans (ih.append_left (s.select root [v]))

theorem select_eq_flatMap (h : s ≠ .root) (ho : s.keepsOrder = true) (found : List Json) :
    s.select root found = found.flatMap fun v => s.select root [v] := by
  induction found with
  | nil => rw [select_nil h, List.flatMap_nil]
  | cons v vs ih =>
    rw [← List.singleton_append, select_append h ho, ih]
    rfl

/-! ## All steps -/

/-- The shape has no influence on what is found. -/
theorem found_run (steps : List Step) (p : Progress) :
    (run root steps p).found = pursue root steps p.found := by
  induction steps generalizing p with
  | nil => rfl
  | cons s steps ih => exact ih (advance root p s)

theorem perm_pursue (h : ∀ s ∈ steps, s ≠ .root) (found : List Json) :
    (pursue root steps found).Perm (found.flatMap fun v => pursue root steps [v]) := by
  induction steps generalizing found with
  | nil => simp [pursue]
  | cons s steps ih =>
    obtain ⟨hs, hsteps⟩ := List.forall_mem_cons.mp h
    let each (v : Json) : List Json := pursue root steps [v]
    calc pursue root (s :: steps) found
      _ ~ (s.select root found).flatMap each := ih hsteps _
      _ ~ (found.flatMap fun v => s.select root [v]).flatMap each :=
        (perm_select hs found).flatMap_right each
      _ = found.flatMap fun v => (s.select root [v]).flatMap each := List.flatMap_assoc
      _ ~ found.flatMap fun v => pursue root (s :: steps) [v] :=
        List.Perm.flatMap_left found fun v _ => (ih hsteps (s.select root [v])).symm

theorem pursue_eq_flatMap (h : ∀ s ∈ steps, s ≠ .root) (ho : ∀ s ∈ steps, s.keepsOrder = true)
    (found : List Json) :
    pursue root steps found = found.flatMap fun v => pursue root steps [v] := by
  induction steps generalizing found with
  | nil => simp [pursue]
  | cons s steps ih =>
    obtain ⟨hs, hsteps⟩ := List.forall_mem_cons.mp h
    obtain ⟨hos, hosteps⟩ := List.forall_mem_cons.mp ho
    have ih := ih hsteps hosteps
    calc pursue root (s :: steps) found
        = (s.select root found).flatMap fun w => pursue root steps [w] := ih _
      _ = found.flatMap fun v => (s.select root [v]).flatMap fun w => pursue root steps [w] := by
        rw [select_eq_flatMap hs hos found, List.flatMap_assoc]
      _ = found.flatMap fun v => pursue root (s :: steps) [v] :=
        List.flatMap_congr fun v _ => (ih (s.select root [v])).symm

theorem stages_nil (h : ∀ s ∈ steps, s ≠ .root) (shape : Shape) :
    ∀ p ∈ stages root ⟨[], shape⟩ steps, p.found = [] := by
  induction steps generalizing shape with
  | nil => simp [stages]
  | cons s steps ih =>
    obtain ⟨hs, hsteps⟩ := List.forall_mem_cons.mp h
    have hadvance : advance root ⟨[], shape⟩ s = ⟨[], s.reshape [] shape⟩ := by
      rw [advance, select_nil hs]
    rw [stages, hadvance]
    exact List.forall_mem_cons.mpr ⟨rfl, ih hsteps _⟩

/-- Steps without `$` find from some matches what they find from each of them alone, up to the order,
and in the same order if no step has several selectors in a list. Where nothing has been found,
nothing is found by any of them. -/
theorem perm_found_run (h : ∀ s ∈ steps, s ≠ .root) (root : Json) (found : List Json)
    (shape : Shape) :
    let each (v : Json) : List Json := (run root steps ⟨[v], shape⟩).found
    ((run root steps ⟨found, shape⟩).found).Perm (found.flatMap each) ∧
    ((∀ selectors, .union selectors ∈ steps → selectors.length < 2) →
      (run root steps ⟨found, shape⟩).found = found.flatMap each) ∧
    ∀ p ∈ stages root ⟨[], shape⟩ steps, p.found = [] := by
  simp only [found_run]
  refine ⟨perm_pursue h found, fun ho => pursue_eq_flatMap h ?_ found, stages_nil h shape⟩
  intro s hs
  cases s with
  | union selectors => exact decide_eq_true (ho selectors hs)
  | _ => rfl

/-- Two selectors go through two arrays, so that the order is mixed, but nothing is lost. -/
theorem perm_found_run_sample :
    let rows : List Json := [.array [.string "a", .string "b"], .array [.string "c", .string "d"]]
    let steps : List Step := [.union [.index 0, .index 1], .filter .current]
    (∀ s ∈ steps, s ≠ .root) ∧
    (run .null steps ⟨rows, .single⟩).found =
      [.string "a", .string "c", .string "b", .string "d"] ∧
    ((run .null steps ⟨rows, .single⟩).found).Perm
      [.string "a", .string "b", .string "c", .string "d"] := by
  intro rows steps
  have h : ∀ s ∈ steps, s ≠ .root := by simp [steps]
  exact ⟨h, rfl, (perm_found_run h .null rows .single).1⟩

end PathQuery.Step
