import Mathlib.Data.List.Forall2
import Mathlib.Data.List.Induction
import PathQuery.Step.Execution

/-! Rows and objects made of properties.
Both constructions keep the values that have one of the keys. A row is what its object answers to the
keys, one after the other, with null for those it lacks. The object has each key once, where it came
first, so that making it again from itself gives the same object. -/
namespace PathQuery

namespace Json

variable {k key : String} {v w value : Json} {keys : List String} {ms : List (String × Json)}

/-! ## Objects from members -/

/-- The members of an object from members of which later ones replace earlier ones of the same key. -/
def collected (ms : List (String × Json)) : List (String × Json) :=
  ms.foldl (fun acc m => insert m.1 m.2 acc) []

theorem collected_append_singleton (ms : List (String × Json)) (m : String × Json) :
    collected (ms ++ [m]) = insert m.1 m.2 (collected ms) := by
  simp [collected]

theorem lookup_insert :
    lookup k (insert key value ms) = if key = k then some value else lookup k ms := by
  induction ms with
  | nil => rfl
  | cons m ms ih =>
    obtain ⟨k', w⟩ := m
    rw [insert]
    split
    next hk =>
      subst hk
      simp only [lookup]
      split <;> rfl
    next hk =>
      simp only [lookup, ih]
      split
      next hk' =>
        subst hk'
        rw [if_neg (Ne.symm hk)]
      next => rfl

theorem keys_insert : (insert key value ms).map Prod.fst =
    if key ∈ ms.map Prod.fst then ms.map Prod.fst else ms.map Prod.fst ++ [key] := by
  induction ms with
  | nil => rfl
  | cons m ms ih =>
    obtain ⟨k, w⟩ := m
    rw [insert]
    by_cases hk : k = key
    · simp [hk]
    · have hmem : key ∈ k :: ms.map Prod.fst ↔ key ∈ ms.map Prod.fst := by
        simp [Ne.symm hk]
      simp only [if_neg hk, List.map_cons, ih, hmem]
      split <;> rfl

theorem mem_of_mem_insert {m : String × Json} (h : m ∈ insert key value ms) :
    m = (key, value) ∨ m ∈ ms := by
  induction ms with
  | nil => exact .inl (List.mem_singleton.mp h)
  | cons n ms ih =>
    obtain ⟨k, w⟩ := n
    rw [insert] at h
    split at h
    next hk =>
      rcases List.mem_cons.mp h with rfl | h
      · exact .inl (hk ▸ rfl)
      · exact .inr (List.mem_cons_of_mem _ h)
    next =>
      rcases List.mem_cons.mp h with rfl | h
      · exact .inr List.mem_cons_self
      · exact (ih h).imp id (List.mem_cons_of_mem _)

/-- The last member of a key is the one that counts. -/
theorem lookup_collected : lookup k (collected ms) = lookup k ms.reverse := by
  induction ms using List.reverseRecOn with
  | nil => rfl
  | append_singleton ms m ih =>
    rw [collected_append_singleton, lookup_insert, ih, List.reverse_append, List.reverse_singleton,
      List.singleton_append, lookup]

/-- Each key is there once, in the place where it came first. -/
theorem keys_collected : (collected ms).map Prod.fst = (ms.map Prod.fst).eraseDups := by
  induction ms using List.reverseRecOn with
  | nil => rfl
  | append_singleton ms m ih =>
    have hmem : m.1 ∈ (collected ms).map Prod.fst ↔ m.1 ∈ ms.map Prod.fst := by
      rw [ih, List.mem_eraseDups]
    rw [collected_append_singleton, keys_insert, List.map_append, List.eraseDups_append, ← ih]
    by_cases h : m.1 ∈ ms.map Prod.fst
    · simp [hmem.mpr h, List.removeAll, h]
    · simp [hmem.not.mpr h, List.removeAll, h, List.eraseDups_cons]

theorem mem_of_mem_collected {m : String × Json} (h : m ∈ collected ms) : m ∈ ms := by
  induction ms using List.reverseRecOn with
  | nil => exact h
  | append_singleton ms n ih =>
    rw [collected_append_singleton] at h
    rcases mem_of_mem_insert h with rfl | h
    · simp
    · exact List.mem_append_left _ (ih h)

/-! ## The object of some properties -/

/-- The properties that a value has, under each of the keys as often as it is given. -/
def present (keys : List String) (v : Json) : List (String × Json) :=
  keys.filterMap fun k => (v.property k).map (k, ·)

theorem record_eq (keys : List String) (v : Json) :
    record keys v = .object (collected (present keys v)) := rfl

theorem present_cons :
    present (key :: keys) v = ((v.property key).map (key, ·)).toList ++ present keys v := by
  rw [present, List.filterMap_cons]
  cases v.property key <;> rfl

theorem lookup_present :
    lookup k (present keys v) = if k ∈ keys then v.property k else none := by
  induction keys with
  | nil => rfl
  | cons key keys ih =>
    rw [present_cons]
    cases hv : v.property key with
    | none =>
      rw [Option.map_none, Option.toList_none, List.nil_append, ih]
      by_cases hk : k = key
      · simp [hk, hv]
      · simp [hk]
    | some w =>
      rw [Option.map_some, Option.toList_some, List.singleton_append, lookup, ih]
      by_cases hk : k = key
      · simp [hk, hv]
      · simp [hk, Ne.symm hk]

theorem keys_present :
    (present keys v).map Prod.fst = keys.filter fun k => (v.property k).isSome := by
  induction keys with
  | nil => rfl
  | cons key keys ih =>
    rw [present_cons, List.map_append, ih, List.filter_cons]
    cases v.property key <;> rfl

theorem property_of_mem_present {m : String × Json} (h : m ∈ present keys v) :
    v.property m.1 = some m.2 := by
  obtain ⟨k, _, hm⟩ := List.mem_filterMap.mp h
  obtain ⟨w, hw, rfl⟩ := Option.map_eq_some_iff.mp hm
  exact hw

/-- The object of some properties has the properties of these keys, and no others. -/
theorem property_record :
    (record keys v).property k = if k ∈ keys then v.property k else none := by
  rw [record_eq, property, lookup_collected, present, ← List.filterMap_reverse, ← present,
    lookup_present]
  simp only [List.mem_reverse]

theorem property_record_of_mem (h : k ∈ keys) : (record keys v).property k = v.property k := by
  rw [property_record, if_pos h]

/-- A row is read from the object of the same keys. -/
theorem tuple_eq (keys : List String) (v : Json) :
    tuple keys v = .array (keys.map fun k => ((record keys v).property k).getD .null) := by
  have h : ∀ k ∈ keys, (v.property k).getD .null = ((record keys v).property k).getD .null :=
    fun k hk => by rw [property_record_of_mem hk]
  rw [tuple, List.map_congr_left h]

theorem hasAny_iff : hasAny keys v = true ↔ ∃ k ∈ keys, (v.property k).isSome = true :=
  List.any_eq_true

theorem hasAny_record : hasAny keys (record keys v) = hasAny keys v := by
  rw [Bool.eq_iff_iff, hasAny_iff, hasAny_iff]
  refine exists_congr fun k => and_congr_right fun hk => ?_
  rw [property_record_of_mem hk]

theorem record_record (keys : List String) (v : Json) :
    record keys (record keys v) = record keys v := by
  have h : present keys (record keys v) = present keys v :=
    List.filterMap_congr fun k hk => by rw [property_record_of_mem hk]
  rw [record_eq, h, record_eq]

/-- An object that holds the properties that a value has among some keys: under each key once, in the
order in which the keys come first. -/
inductive RecordOf (keys : List String) (v : Json) : Json → Prop
  | object {members : List (String × Json)}
    (hkeys : members.map Prod.fst = (keys.filter fun k => (v.property k).isSome).eraseDups)
    (hvalues : ∀ m ∈ members, v.property m.1 = some m.2) : RecordOf keys v (.object members)

theorem recordOf_record (keys : List String) (v : Json) : RecordOf keys v (record keys v) := by
  have hkeys : (collected (present keys v)).map Prod.fst =
      (keys.filter fun k => (v.property k).isSome).eraseDups := by
    rw [keys_collected, keys_present]
  exact .object hkeys fun _ hm => property_of_mem_present (mem_of_mem_collected hm)

end Json

namespace Step

theorem select_tuple_eq (root : Json) (keys : List String) (found : List Json) :
    (tuple keys).select root found = ((record keys).select root found).map fun o =>
      .array (keys.map fun k => (o.property k).getD .null) := by
  rw [select, select, List.map_map]
  exact List.map_congr_left fun v _ => Json.tuple_eq keys v

theorem select_record_record (root : Json) (keys : List String) (found : List Json) :
    (record keys).select root ((record keys).select root found) =
      (record keys).select root found := by
  have hall : ((found.filter (Json.hasAny keys)).map (Json.record keys)).filter
      (Json.hasAny keys) = (found.filter (Json.hasAny keys)).map (Json.record keys) := by
    refine List.filter_eq_self.mpr fun o ho => ?_
    obtain ⟨v, hv, rfl⟩ := List.mem_map.mp ho
    rw [Json.hasAny_record]
    exact (List.mem_filter.mp hv).2
  rw [select, select, hall, List.map_map]
  exact List.map_congr_left fun v _ => Json.record_record keys v

/-- Both constructions keep the values that have one of the keys, in their order. From each of these
one makes the object of the properties that it has, the other the row of what this object answers to
each key, null where it lacks it. Objects made of objects with the same keys are what they were. -/
theorem run_tuple_and_record (root : Json) (keys : List String) (p : Progress) :
    let kept := p.found.filter fun v => ∃ k ∈ keys, (v.property k).isSome = true
    let rows := (run root [tuple keys] p).found
    let objects := (run root [record keys] p).found
    List.Forall₂ (Json.RecordOf keys) kept objects ∧
    rows = objects.map (fun o => .array (keys.map fun k => (o.property k).getD .null)) ∧
    run root [record keys, record keys] p = run root [record keys] p := by
  intro kept rows objects
  have hkept : kept = p.found.filter (Json.hasAny keys) := by
    refine List.filter_congr fun v _ => ?_
    rw [Bool.eq_iff_iff, decide_eq_true_iff, Json.hasAny_iff]
  refine ⟨?_, select_tuple_eq root keys p.found, ?_⟩
  · have hobjects : objects = kept.map (Json.record keys) := by
      rw [hkept]
      rfl
    rw [hobjects, List.forall₂_map_right_iff, List.forall₂_same]
    exact fun v _ => Json.recordOf_record keys v
  · have hfound : (record keys).select root ((record keys).select root p.found) =
        (record keys).select root p.found := select_record_record root keys p.found
    simp only [run, List.foldl_cons, List.foldl_nil, advance, reshape, hfound]

/-- A key that is given twice, a member that is null, one that is absent and a value with neither. -/
example :
    let p : Progress := ⟨[.object [("a", .null), ("c", .bool true)], .null, .string "xy"], .single⟩
    let keys := ["b", "a", "length", "a"]
    (run .null [tuple keys] p).found =
      [.array [.null, .null, .null, .null], .array [.null, .null, .ofNat 2, .null]] ∧
    (run .null [record keys] p).found =
      [.object [("a", .null)], .object [("length", .ofNat 2)]] := ⟨rfl, rfl⟩

end Step
end PathQuery
