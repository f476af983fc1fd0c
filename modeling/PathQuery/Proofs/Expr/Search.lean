import PathQuery.Expr.Method
import PathQuery.Proofs.Text.Search

/-! Methods that search.
All four methods on texts and the two on arrays can be told from one offset, that of the first
occurrence, or -1 where there is none. On texts it counts characters, also when the search itself goes
through encoded bytes. -/
namespace PathQuery

/-- The first of some places, and -1 if there are none. -/
inductive FirstOf (places : Set Nat) : Int → Prop
  | found {k : Nat} (h : IsLeast places k) : FirstOf places k
  | missing (h : places = ∅) : FirstOf places (-1)

namespace FirstOf

variable {places : Set Nat} {offset : Int} {o : Option Nat}

theorem eq_zero_iff (h : FirstOf places offset) : offset = 0 ↔ 0 ∈ places := by
  cases h with
  | @found k hleast =>
    constructor
    · intro hzero
      obtain rfl : k = 0 := by omega
      exact hleast.1
    · intro hmem
      have := hleast.2 hmem
      omega
  | missing hempty => simp [hempty]

/-- The offset that a search reports, from what it finds. -/
theorem exists_ofOffset (h : (∃ k, o = some k ∧ IsLeast places k) ∨ o = none ∧ places = ∅) :
    ∃ offset, Json.ofOffset o = .number (.int offset) ∧ FirstOf places offset ∧
      o.isSome = decide (offset ≠ -1) := by
  rcases h with ⟨k, rfl, hleast⟩ | ⟨rfl, hempty⟩
  · refine ⟨k, rfl, .found hleast, ?_⟩
    have hne : (k : Int) ≠ -1 := by omega
    rw [Option.isSome_some, decide_eq_true hne]
  · exact ⟨-1, rfl, .missing hempty, rfl⟩

end FirstOf

/-- The places in a list of the items that are strictly equal to `v`. -/
def Json.placesOf (v : Json) (items : List Json) : Set Nat :=
  {j | ∃ w : Json, items[j]? = some w ∧ w.strictEq v = true}

/-- The search in a list stops at the first of these places. -/
theorem Json.indexOf?_cases (v : Json) (items : List Json) :
    (∃ k, indexOf? v items = some k ∧ IsLeast (v.placesOf items) k) ∨
      indexOf? v items = none ∧ v.placesOf items = ∅ := by
  cases h : indexOf? v items with
  | some k =>
    obtain ⟨hk, hequal, hfirst⟩ := List.findIdx?_eq_some_iff_getElem.mp h
    refine .inl ⟨k, rfl, ⟨items[k], List.getElem?_eq_getElem hk, hequal⟩, fun j hj => ?_⟩
    obtain ⟨w, hw, hsame⟩ := hj
    obtain ⟨hlt, rfl⟩ := List.getElem?_eq_some_iff.mp hw
    exact Nat.le_of_not_lt fun hbefore => hfirst j hbefore hsame
  | none =>
    have hnone := List.findIdx?_eq_none_iff.mp h
    refine .inr ⟨rfl, Set.eq_empty_iff_forall_notMem.mpr fun j hj => ?_⟩
    obtain ⟨w, hw, hsame⟩ := hj
    rw [hnone w (List.mem_of_getElem? hw)] at hsame
    cases hsame

namespace Method
open Text (OccursAt utf8)

theorem startsWith_eq {s n : String} {offset : Int}
    (h : FirstOf {j | OccursAt n.toList s.toList j} offset) :
    startsWith.call (.string s) (some (.string n)) = some (.bool (decide (offset = 0))) := by
  have hprefix : n.toList.isPrefixOf s.toList = decide (offset = 0) :=
    Bool.eq_iff_iff.mpr (by
      rw [List.isPrefixOf_iff_prefix, decide_eq_true_iff, h.eq_zero_iff]
      exact Text.occursAt_zero_iff.symm)
  exact congrArg Outcome.ofBool hprefix

theorem exists_endsWith (s n : String) :
    ∃ b : Bool, endsWith.call (.string s) (some (.string n)) = some (.bool b) ∧
      (b = true ↔ OccursAt n.toList s.toList (s.length - n.length)) := by
  refine ⟨n.toList.isSuffixOf s.toList, rfl, ?_⟩
  rw [List.isSuffixOf_iff_suffix, Text.suffix_iff_occursAt, String.length_toList,
    String.length_toList]

/-- The bytes before the first place among the encoded bytes are as many characters as the offset. -/
theorem characters_of_bytes {s n : String} {offset : Int}
    (h : FirstOf {j | OccursAt n.toList s.toList j} offset) :
    (∃ b before, IsLeast {b | OccursAt (utf8 n.toList) (utf8 s.toList) b} b ∧
      (utf8 s.toList).take b = utf8 before ∧ offset = before.length) ∨
    {b | OccursAt (utf8 n.toList) (utf8 s.toList) b} = ∅ ∧ offset = -1 := by
  cases h with
  | @found k hleast =>
    refine .inl ⟨_, s.toList.take k, Text.isLeast_utf8 hleast, ?_, ?_⟩
    · conv_lhs => rw [← List.take_append_drop k s.toList, Text.utf8_append]
      rw [List.take_append_drop, List.take_left]
    · obtain ⟨before, after, htext, rfl⟩ := hleast.1
      rw [htext, List.take_left]
  | missing hempty => exact .inr ⟨Text.utf8_occurrences_eq_empty hempty, rfl⟩

theorem call_string_of_not_string {m : Method} (hm : m ∈ [includes, indexOf, startsWith, endsWith])
    {arg : Outcome} (harg : ∀ n, arg ≠ some (.string n)) (s : String) :
    m.call (.string s) arg = none := by
  simp only [List.mem_cons, List.not_mem_nil, or_false] at hm
  cases arg with
  | none => rcases hm with rfl | rfl | rfl | rfl <;> rfl
  | some w =>
    cases w with
    | string n => exact absurd rfl (harg n)
    | _ => rcases hm with rfl | rfl | rfl | rfl <;> rfl

theorem call_other {m : Method} (hm : m ∈ [includes, indexOf, startsWith, endsWith]) {v : Json}
    (hstring : v.isString = false) (harray : v.isArray = false) (arg : Outcome) :
    m.call v arg = none := by
  simp only [List.mem_cons, List.not_mem_nil, or_false] at hm
  cases v with
  | string s => cases hstring
  | array items => cases harray
  | _ => rcases hm with rfl | rfl | rfl | rfl <;> rfl

theorem call_array (items : List Json) (arg : Outcome) :
    startsWith.call (.array items) arg = none ∧ endsWith.call (.array items) arg = none ∧
      (includes.call (.array items) arg = none ↔ arg = none) ∧
      (indexOf.call (.array items) arg = none ↔ arg = none) := by
  cases arg with
  | none => exact ⟨rfl, rfl, iff_of_true rfl rfl, iff_of_true rfl rfl⟩
  | some v => exact ⟨rfl, rfl, iff_of_false nofun nofun, iff_of_false nofun nofun⟩

/-- In a text the offset of another one is that of its first occurrence, counted in characters, and -1
if it does not occur; it is the number of characters before the first occurrence among the bytes too.
A text includes another one if the offset is not -1 and starts with it if the offset is 0; it ends with
what occurs as far behind its start as the lengths differ. In an array the offset is that of the first
strictly equal item. What is looked for in a text must be a text, in an array it must be there, and
nothing is found in other values, nor at the ends of an array. -/
theorem search_laws :
    (∀ s n : String, ∃ offset : Int, FirstOf {j | OccursAt n.toList s.toList j} offset ∧
      ((∃ b before, IsLeast {b | OccursAt (utf8 n.toList) (utf8 s.toList) b} b ∧
        (utf8 s.toList).take b = utf8 before ∧ offset = before.length) ∨
        {b | OccursAt (utf8 n.toList) (utf8 s.toList) b} = ∅ ∧ offset = -1) ∧
      indexOf.call (.string s) (some (.string n)) = some (.number (.int offset)) ∧
      includes.call (.string s) (some (.string n)) = some (.bool (decide (offset ≠ -1))) ∧
      startsWith.call (.string s) (some (.string n)) = some (.bool (decide (offset = 0))) ∧
      ∃ b : Bool, endsWith.call (.string s) (some (.string n)) = some (.bool b) ∧
        (b = true ↔ OccursAt n.toList s.toList (s.length - n.length))) ∧
    (∀ (items : List Json) (v : Json), ∃ offset : Int,
      FirstOf (v.placesOf items) offset ∧
      indexOf.call (.array items) (some v) = some (.number (.int offset)) ∧
      includes.call (.array items) (some v) = some (.bool (decide (offset ≠ -1)))) ∧
    (∀ m ∈ [includes, indexOf, startsWith, endsWith],
      (∀ (s : String) (arg : Outcome), (∀ n, arg ≠ some (.string n)) →
        m.call (.string s) arg = none) ∧
      ∀ (v : Json) (arg : Outcome), v.isString = false → v.isArray = false →
        m.call v arg = none) ∧
    ∀ (items : List Json) (arg : Outcome),
      startsWith.call (.array items) arg = none ∧ endsWith.call (.array items) arg = none ∧
      (includes.call (.array items) arg = none ↔ arg = none) ∧
      (indexOf.call (.array items) arg = none ↔ arg = none) := by
  refine ⟨fun s n => ?_, fun items v => ?_, fun m hm => ⟨?_, ?_⟩, fun items arg => ?_⟩
  · obtain ⟨offset, hoffset, hfirst, hsome⟩ :=
      FirstOf.exists_ofOffset (Text.offset?_cases n.toList s.toList)
    exact ⟨offset, hfirst, characters_of_bytes hfirst, congrArg some hoffset,
      congrArg Outcome.ofBool hsome, startsWith_eq hfirst, exists_endsWith s n⟩
  · obtain ⟨offset, hoffset, hfirst, hsome⟩ :=
      FirstOf.exists_ofOffset (Json.indexOf?_cases v items)
    have hany : (items.any fun w => w.strictEq v) = decide (offset ≠ -1) := by
      rw [← List.findIdx?_isSome]
      exact hsome
    exact ⟨offset, hfirst, congrArg some hoffset, congrArg Outcome.ofBool hany⟩
  · exact fun s arg harg => call_string_of_not_string hm harg s
  · exact fun v arg hstring harray => call_other hm hstring harray arg
  · exact call_array items arg

/-- A number is not looked for in a text, and nothing is looked for in a number. -/
theorem search_laws_sample :
    indexOf ∈ [includes, indexOf, startsWith, endsWith] ∧
    ((∀ n, some (Json.ofNat 1) ≠ some (.string n)) ∧
      indexOf.call (.string "a1") (some (.ofNat 1)) = none) ∧
    ((Json.ofNat 11).isString = false ∧ (Json.ofNat 11).isArray = false ∧
      indexOf.call (.ofNat 11) (some (.ofNat 1)) = none) := by
  have hm : indexOf ∈ [includes, indexOf, startsWith, endsWith] := by simp
  have harg : ∀ n, some (Json.ofNat 1) ≠ some (.string n) := fun n h => by cases h
  obtain ⟨-, -, habsent, -⟩ := search_laws
  obtain ⟨htext, hother⟩ := habsent indexOf hm
  exact ⟨hm, ⟨harg, htext "a1" _ harg⟩, rfl, rfl, hother _ _ rfl rfl⟩

/-- The second of two overlapping candidates, behind characters of two bytes each. -/
example : indexOf.call (.string "ééaab") (some (.string "ab")) = some (.number (.int 3)) := rfl

end Method
end PathQuery
