import Mathlib.Tactic.Common
import PathQuery.Json.Descent

/-! Positions in a value.
A position names one child after the other, each by its number, from the outside to the inside.
Positions in lexicographic order are in pre-order: a value comes before what it holds, and all that
one child holds comes before the next child. -/
namespace PathQuery.Json

/-- A position: the number of a child, counted from 0, for every level. -/
abbrev Position := List Nat

/-- The child of a number: an item of an array, or the value of a member of an object. -/
def childAt? : Json → Nat → Option Json
  | .array items, i => items[i]?
  | .object members, i => members[i]?.map Prod.snd
  | _, _ => none

/-- The value at a position. -/
def valueAt? (v : Json) : Position → Option Json
  | [] => some v
  | i :: p => (v.childAt? i).bind fun c => valueAt? c p

theorem childAt?_eq (v : Json) (i : Nat) : v.childAt? i = v.children[i]? := by
  cases v <;> simp [childAt?, children]

theorem valueAt?_cons (v : Json) (i : Nat) (p : Position) :
    v.valueAt? (i :: p) = v.children[i]?.bind fun c => c.valueAt? p := by
  rw [valueAt?, childAt?_eq]

theorem valueAt?_append (v : Json) (p q : Position) :
    v.valueAt? (p ++ q) = (v.valueAt? p).bind fun w => w.valueAt? q := by
  induction p generalizing v with
  | nil => rfl
  | cons i p ih =>
    rw [List.cons_append, valueAt?, valueAt?, Option.bind_assoc]
    simp only [ih]

@[simp] theorem valueAt?_singleton (v : Json) (i : Nat) : v.valueAt? [i] = v.children[i]? := by
  rw [valueAt?_cons]
  exact Option.bind_fun_some _

theorem isContainer_iff {v : Json} :
    v.isContainer = true ↔ (∃ items, v = array items) ∨ ∃ members, v = object members := by
  cases v <;> simp [isContainer]

theorem isContainer_of_mem_children {v c : Json} (h : c ∈ v.children) : v.isContainer = true := by
  cases v with
  | array items => rfl
  | object members => rfl
  | _ => cases h

theorem isContainer_of_valueAt?_cons {v w : Json} {i : Nat} {p : Position}
    (h : v.valueAt? (i :: p) = some w) : v.isContainer = true := by
  rw [valueAt?_cons] at h
  obtain ⟨c, hc, _⟩ := Option.bind_eq_some_iff.mp h
  exact isContainer_of_mem_children (List.mem_of_getElem? hc)

/-! ## Induction on values -/

theorem size_le_sizeItems {c : Json} {vs : List Json} (h : c ∈ vs) : c.size ≤ sizeItems vs := by
  induction vs with
  | nil => cases h
  | cons v vs ih =>
    rw [sizeItems]
    rcases List.mem_cons.mp h with rfl | h
    · omega
    · have := ih h
      omega

theorem size_lt_of_mem_children {c v : Json} (h : c ∈ v.children) : c.size < v.size :=
  Nat.lt_of_le_of_lt (size_le_sizeItems h) (sizeItems_children_lt v)

/-- What holds of a value whenever it holds of its children holds of every value. -/
theorem inductionOnChildren {motive : Json → Prop}
    (step : ∀ v : Json, (∀ c ∈ v.children, motive c) → motive v) (v : Json) : motive v :=
  step v fun c _ => inductionOnChildren step c
termination_by v.size
decreasing_by exact size_lt_of_mem_children ‹_›

/-! ## Keys -/

mutual

/-- Whether every object in a value has each key once. -/
def distinctKeys : Json → Bool
  | .array items => distinctKeysItems items
  | .object members => (members.map Prod.fst).Nodup && distinctKeysMembers members
  | _ => true

def distinctKeysItems : List Json → Bool
  | [] => true
  | v :: vs => distinctKeys v && distinctKeysItems vs

def distinctKeysMembers : List (String × Json) → Bool
  | [] => true
  | (_, v) :: ms => distinctKeys v && distinctKeysMembers ms

end

theorem mem_of_lookup {key : String} {v : Json} {ms : List (String × Json)}
    (h : lookup key ms = some v) : (key, v) ∈ ms := by
  induction ms with
  | nil => cases h
  | cons m ms ih =>
    obtain ⟨k, w⟩ := m
    rw [lookup] at h
    split at h
    next hk =>
      obtain rfl := Option.some.inj h
      exact hk ▸ List.mem_cons_self
    next => exact List.mem_cons_of_mem _ (ih h)

/-- Where every key is there once, a member is what is found under its key. -/
theorem lookup_of_mem {key : String} {v : Json} {ms : List (String × Json)}
    (hkeys : (ms.map Prod.fst).Nodup) (h : (key, v) ∈ ms) :
    lookup key ms = some v := by
  induction ms with
  | nil => cases h
  | cons m ms ih =>
    obtain ⟨k, w⟩ := m
    obtain ⟨hk, hkeys⟩ := List.nodup_cons.mp hkeys
    rw [lookup]
    rcases List.mem_cons.mp h with h | h
    · cases h
      exact if_pos rfl
    · have hne : k ≠ key := by
        rintro rfl
        exact hk (List.mem_map.mpr ⟨(k, v), h, rfl⟩)
      rw [if_neg hne]
      exact ih hkeys h

theorem distinctKeys_array_iff {items : List Json} :
    (array items).distinctKeys = true ↔ ∀ v ∈ items, v.distinctKeys = true := by
  rw [distinctKeys]
  induction items with
  | nil => simp [distinctKeysItems]
  | cons v vs ih => rw [distinctKeysItems, Bool.and_eq_true, ih, List.forall_mem_cons]

theorem distinctKeysMembers_iff {ms : List (String × Json)} :
    distinctKeysMembers ms = true ↔ ∀ m ∈ ms, m.2.distinctKeys = true := by
  induction ms with
  | nil => simp [distinctKeysMembers]
  | cons m ms ih => rw [distinctKeysMembers, Bool.and_eq_true, ih, List.forall_mem_cons]

theorem distinctKeys_object_iff {ms : List (String × Json)} :
    (object ms).distinctKeys = true ↔
      (ms.map Prod.fst).Nodup ∧ ∀ m ∈ ms, m.2.distinctKeys = true := by
  rw [distinctKeys, Bool.and_eq_true, decide_eq_true_eq, distinctKeysMembers_iff]

theorem distinctKeys_of_mem_children {v c : Json} (h : v.distinctKeys = true)
    (hc : c ∈ v.children) : c.distinctKeys = true := by
  cases v with
  | array items => exact distinctKeys_array_iff.mp h c hc
  | object members =>
    obtain ⟨m, hm, rfl⟩ := List.mem_map.mp hc
    exact (distinctKeys_object_iff.mp h).2 m hm
  | _ => cases hc

theorem distinctKeys_of_valueAt? {v w : Json} {p : Position} (h : v.distinctKeys = true)
    (hp : v.valueAt? p = some w) : w.distinctKeys = true := by
  induction p generalizing v with
  | nil =>
    cases hp
    exact h
  | cons i p ih =>
    rw [valueAt?_cons] at hp
    obtain ⟨c, hc, hp⟩ := Option.bind_eq_some_iff.mp hp
    exact ih (distinctKeys_of_mem_children h (List.mem_of_getElem? hc)) hp

end PathQuery.Json
