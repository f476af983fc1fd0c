import Mathlib.Tactic.Common
import PathQuery.Step.Execution

/-! Following names and positions into a value, one after the other.
The steps that are made of them do the same to every value found. -/
namespace PathQuery

/-- The value at the end of a chain of names and positions, if every one of them leads on. -/
def Json.follow (v : Json) (chain : List Selector) : Option Json :=
  chain.foldlM (fun w s => s.select w) v

@[simp] theorem Json.follow_nil (v : Json) : v.follow [] = some v := rfl

theorem Json.follow_cons (v : Json) (s : Selector) (chain : List Selector) :
    v.follow (s :: chain) = (s.select v).bind fun w => w.follow chain := by
  simp [follow]

/-- The step that goes along a selector. -/
def Selector.step : Selector → Step
  | .index i => .index i
  | .name s => .member s

namespace Step

variable {root : Json}

theorem select_step (s : Selector) (found : List Json) :
    s.step.select root found = found.filterMap s.select := by
  cases s <;> rfl

theorem run_cons (s : Step) (steps : List Step) (p : Progress) :
    run root (s :: steps) p = run root steps (advance root p s) := rfl

theorem run_append (before after : List Step) (p : Progress) :
    run root (before ++ after) p = run root after (run root before p) :=
  List.foldl_append

/-- What is found along a chain is what every value found before leads to. -/
theorem found_run_chain (chain : List Selector) (p : Progress) :
    (run root (chain.map Selector.step) p).found = p.found.filterMap fun v => v.follow chain := by
  induction chain generalizing p with
  | nil => simp [run]
  | cons s chain ih =>
    rw [List.map_cons, run_cons, ih, advance, select_step, List.filterMap_filterMap]
    simp only [Json.follow_cons]

/-- Names alone leave the shape as it is. -/
theorem shape_run_names (names : List String) (p : Progress) :
    (run root (names.map .member) p).shape = p.shape := by
  induction names generalizing p with
  | nil => rfl
  | cons name names ih => rw [List.map_cons, run_cons, ih, advance, reshape]

end Step
end PathQuery
