import PathQuery.Proofs.Json.Preorder
import PathQuery.Step.Execution

/-! Where matches come from.
Steps that only select find values that stand in the document, and besides them nothing but lengths of
arrays and strings in it: whatever an expression computes decides what is selected, and is never
itself a match. -/
namespace PathQuery

namespace Json

/-- How many items an array has, or characters a string. -/
def length? : Json → Option Nat
  | .array items => some items.length
  | .string s => some s.length
  | _ => none

/-- A value comes from a document if it stands at some position in it, or if it is the length of what
stands there. -/
inductive ComesFrom (document : Json) : Json → Prop
  | inside {p : Position} {v : Json} (h : document.valueAt? p = some v) : ComesFrom document v
  | length {p : Position} {v : Json} {n : Nat} (h : document.valueAt? p = some v)
    (hn : v.length? = some n) : ComesFrom document (.ofNat n)

variable {d v w : Json}

/-! ## What is taken out of a value -/

theorem mem_children_of_lookup {name : String} {members : List (String × Json)}
    (h : lookup name members = some w) : w ∈ (object members).children :=
  List.mem_map_of_mem (mem_of_lookup h)

/-- A property is a child of the value or its length. -/
theorem mem_children_or_length_of_property {name : String} (h : v.property name = some w) :
    w ∈ v.children ∨ ∃ n, v.length? = some n ∧ w = .ofNat n := by
  cases v with
  | object members => exact .inl (mem_children_of_lookup h)
  | array items =>
    rw [property] at h
    split at h
    · exact .inr ⟨items.length, rfl, (Option.some.inj h).symm⟩
    · obtain ⟨i, _, hi⟩ := Option.bind_eq_some_iff.mp h
      exact .inl (List.mem_of_getElem? hi)
  | string s =>
    rw [property] at h
    split at h
    · exact .inr ⟨s.length, rfl, (Option.some.inj h).symm⟩
    · cases h
  | _ => cases h

theorem mem_children_or_length_of_element {i : Int} (h : v.element i = some w) :
    w ∈ v.children ∨ ∃ n, v.length? = some n ∧ w = .ofNat n := by
  cases v with
  | array items =>
    rw [element] at h
    split at h
    · cases h
    · exact .inl (List.mem_of_getElem? h)
  | _ =>
    simp only [element] at h
    exact mem_children_or_length_of_property h

theorem mem_children_of_mem_slice {start stop : Option Int} (h : w ∈ v.slice start stop) :
    w ∈ v.children := by
  cases v with
  | array items => exact List.mem_of_mem_take (List.mem_of_mem_drop h)
  | _ => cases h

theorem eq_or_mem_children_of_mem_candidates (h : w ∈ v.candidates) : w = v ∨ w ∈ v.children := by
  cases v with
  | array items => exact .inr h
  | _ => exact .inl (List.mem_singleton.mp h)

theorem exists_position_of_mem_descendants (h : w ∈ v.descendants) :
    ∃ p, v.valueAt? p = some w := by
  have hw : some w ∈ v.openings.map v.valueAt? := by
    rw [map_valueAt?_openings, ← descendants_eq_preorder]
    exact List.mem_map_of_mem h
  obtain ⟨p, _, hp⟩ := List.mem_map.mp hw
  exact ⟨p, hp⟩

/-! ## Staying in the document -/

namespace ComesFrom

theorem below {p : Position} (h : d.ComesFrom v) (hp : v.valueAt? p = some w) : d.ComesFrom w := by
  cases h with
  | @inside q v hv => exact .inside (p := q ++ p) (by rw [valueAt?_append, hv]; exact hp)
  | @length q u n hu hn =>
    -- a number has no position inside it but its own
    cases p with
    | nil =>
      obtain rfl := Option.some.inj hp
      exact .length hu hn
    | cons i p => cases hp

theorem child (h : d.ComesFrom v) (hw : w ∈ v.children) : d.ComesFrom w := by
  obtain ⟨i, hi⟩ := List.getElem?_of_mem hw
  exact h.below (p := [i]) (by rw [valueAt?_singleton, hi])

theorem child_or_length (h : d.ComesFrom v)
    (hw : w ∈ v.children ∨ ∃ n, v.length? = some n ∧ w = .ofNat n) : d.ComesFrom w := by
  rcases hw with hw | ⟨n, hn, rfl⟩
  · exact h.child hw
  · cases h with
    | inside hv => exact .length hv hn
    | length => cases hn

theorem select (h : d.ComesFrom v) {s : Selector} (hw : s.select v = some w) : d.ComesFrom w := by
  cases s with
  | index i => exact h.child_or_length (mem_children_or_length_of_element hw)
  | name name => exact h.child_or_length (mem_children_or_length_of_property hw)

end ComesFrom
end Json

namespace Step

/-- Whether a step chooses among values and does not make any. -/
def selects : Step → Bool
  | .map _ => false
  | .tuple _ => false
  | .record _ => false
  | .coerce _ => false
  | _ => true

variable {root v : Json} {s : Step} {steps : List Step} {found : List Json}

theorem comesFrom_select (h : s.selects = true) (hf : ∀ w ∈ found, root.ComesFrom w)
    (hv : v ∈ s.select root found) : root.ComesFrom v := by
  cases s with
  | root =>
    obtain rfl := List.mem_singleton.mp hv
    exact .inside (p := []) rfl
  | recurse =>
    obtain ⟨w, hw, hv⟩ := List.mem_flatMap.mp hv
    obtain ⟨p, hp⟩ := Json.exists_position_of_mem_descendants hv
    exact (hf w hw).below hp
  | member name =>
    obtain ⟨w, hw, hv⟩ := List.mem_filterMap.mp hv
    exact (hf w hw).select (s := .name name) hv
  | wildcard =>
    obtain ⟨w, hw, hv⟩ := List.mem_flatMap.mp hv
    exact (hf w hw).child hv
  | index i =>
    obtain ⟨w, hw, hv⟩ := List.mem_filterMap.mp hv
    exact (hf w hw).select (s := .index i) hv
  | slice start stop =>
    obtain ⟨w, hw, hv⟩ := List.mem_flatMap.mp hv
    exact (hf w hw).child (Json.mem_children_of_mem_slice hv)
  | union selectors =>
    obtain ⟨selector, _, hv⟩ := List.mem_flatMap.mp hv
    obtain ⟨w, hw, hv⟩ := List.mem_filterMap.mp hv
    exact (hf w hw).select hv
  | filter e =>
    -- the expression only decides which of the candidates stay
    obtain ⟨w, hw, hv⟩ := List.mem_flatMap.mp (List.mem_of_mem_filter hv)
    rcases Json.eq_or_mem_children_of_mem_candidates hv with rfl | hv
    · exact hf v hw
    · exact (hf w hw).child hv
  | computed e =>
    -- the expression only decides which element is taken
    obtain ⟨w, hw, hv⟩ := List.mem_filterMap.mp hv
    obtain ⟨i, _, hv⟩ := Option.bind_eq_some_iff.mp hv
    exact (hf w hw).select (s := .index i) hv
  | _ => cases h

/-- After every step, all that steps which only select have found comes from the document. -/
theorem comesFrom_stages (h : ∀ s ∈ steps, s.selects = true) (root : Json) :
    ∀ p ∈ stages root .start steps, ∀ v ∈ p.found, root.ComesFrom v := by
  suffices hrun : ∀ q : Progress, (∀ v ∈ q.found, root.ComesFrom v) →
      ∀ p ∈ stages root q steps, ∀ v ∈ p.found, root.ComesFrom v from
    hrun .start fun v hv => by cases hv
  induction steps with
  | nil => simp [stages]
  | cons s steps ih =>
    intro q hq
    obtain ⟨hs, hsteps⟩ := List.forall_mem_cons.mp h
    have hnext : ∀ v ∈ (advance root q s).found, root.ComesFrom v :=
      fun v hv => comesFrom_select hs hq hv
    exact List.forall_mem_cons.mpr ⟨hnext, ih hsteps _ hnext⟩

/-- A filter keeps the non-empty text of an array, and what is found at the end is its length. -/
theorem comesFrom_stages_sample :
    let document : Json := .object [("a", .array [.string "x", .string ""]), ("b", .bool true)]
    let steps : List Step := [.root, .wildcard, .filter .current, .union [.name "length"]]
    (∀ s ∈ steps, s.selects = true) ∧
    (run document steps .start).found = [.ofNat 1] ∧ document.ComesFrom (.ofNat 1) := by
  intro document steps
  have h : ∀ s ∈ steps, s.selects = true := by simp [steps, selects]
  have hlast : (stages document .start steps)[3]? = some ⟨[.ofNat 1], .sequence⟩ := rfl
  exact ⟨h, rfl, comesFrom_stages h document _ (List.mem_of_getElem? hlast) _ (by simp)⟩

end Step
end PathQuery
