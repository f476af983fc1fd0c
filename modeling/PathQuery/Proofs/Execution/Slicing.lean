import Mathlib.Data.List.Intervals
import PathQuery.Proofs.Access.Chain

/-! Which elements a slice takes.
Both bounds of a slice come to places between the start and the end of the array, and the elements
from one place up to the other are found in their order: what a list of the positions in between
finds too. On words of 64 bits no bound overflows. -/
namespace PathQuery

/-- The place between 0 and `length` that a bound of a slice means: one that is left out means the
place `absent`, and a negative one counts from the end. -/
def place (length : Nat) (absent : Int) : Option Int → Int
  | none => absent
  | some c => if c < 0 then max 0 (length + c) else min c length

/-- The positions that a slice of `length` items takes. -/
def positions (length : Nat) (start stop : Option Int) : List Nat :=
  (List.range length).filter fun k : Nat =>
    place length 0 start ≤ k ∧ (k : Int) < place length length stop

/-- A bound of a slice on words, where the sum of the length and a bound wraps around outside the
range. -/
def wordBound (length b : Int64) : Int64 :=
  let b := if b < 0 then length + b else b
  if b < 0 then 0 else if length < b then length else b

variable {length : Nat}

/-! ## The places of the bounds -/

theorem bound_eq_place (length : Nat) (absent c : Int) :
    Json.bound length c = (place length absent (some c)).toNat := rfl

theorem place_eq_bound (length : Nat) (absent c : Int) :
    place length absent (some c) = Json.bound length c := by
  rw [bound_eq_place, Int.toNat_of_nonneg]
  rw [place]
  omega

theorem place_mem_Icc {absent : Int} (h : absent = 0 ∨ absent = length) (c : Option Int) :
    0 ≤ place length absent c ∧ place length absent c ≤ length := by
  cases c with
  | none => rw [place]; omega
  | some c => rw [place]; split <;> omega

theorem getD_bound (c : Option Int) (absent : Nat) :
    (c.map (Json.bound length)).getD absent = (place length absent c).toNat := by
  cases c with
  | none => rfl
  | some c => exact bound_eq_place length absent c

/-- The positions of a slice are those from one place up to the other. -/
theorem positions_eq_Ico (length : Nat) (start stop : Option Int) :
    positions length start stop =
      List.Ico (place length 0 start).toNat (place length length stop).toNat := by
  have hlo : 0 ≤ place length 0 start := (place_mem_Icc (.inl rfl) start).1
  obtain ⟨hhi, hlength⟩ : 0 ≤ place length length stop ∧ place length length stop ≤ length :=
    place_mem_Icc (.inr rfl) stop
  generalize hx : place length 0 start = lo at *
  generalize hy : place length length stop = hi at *
  lift lo to Nat using hlo
  lift hi to Nat using hhi
  have hle : hi ≤ length := by omega
  calc positions length start stop
      = (List.range length).filter fun k => lo ≤ k ∧ k < hi := by
        simp only [positions, hx, hy, Int.ofNat_le, Int.ofNat_lt]
    _ = ((List.Ico 0 length).filter fun k => k < hi).filter fun k => lo ≤ k := by
        rw [List.filter_filter, List.Ico.zero_bot]
        simp only [Bool.decide_and]
    _ = List.Ico lo hi := by
        rw [List.Ico.filter_lt, List.Ico.filter_le, min_eq_right hle, Nat.zero_max]

/-! ## The elements of a slice -/

theorem filterMap_getElem?_Ico (items : List Json) (lo hi : Nat) :
    (List.Ico lo hi).filterMap (items[·]?) = (items.take hi).drop lo := by
  induction h : hi - lo generalizing lo with
  | zero =>
    have hle : hi ≤ lo := by omega
    rw [List.Ico.eq_nil_of_le hle, List.drop_eq_nil_of_le ((List.length_take_le _ _).trans hle)]
    rfl
  | succ m ih =>
    have hlt : lo < hi := by omega
    rw [List.Ico.eq_cons hlt, List.filterMap_cons, ih (lo + 1) (by omega)]
    by_cases hin : lo < items.length
    · have hin' : lo < (items.take hi).length := by rw [List.length_take]; omega
      rw [List.getElem?_eq_getElem hin, List.drop_eq_getElem_cons hin', List.getElem_take]
    · rw [List.getElem?_eq_none (by omega)]
      rw [List.drop_eq_nil_of_le (by rw [List.length_take]; omega),
        List.drop_eq_nil_of_le (by rw [List.length_take]; omega)]

theorem slice_array (items : List Json) (start stop : Option Int) :
    (Json.array items).slice start stop =
      (positions items.length start stop).filterMap (items[·]?) := by
  rw [Json.slice, getD_bound, getD_bound, positions_eq_Ico, filterMap_getElem?_Ico]
  rfl

namespace Step

theorem select_slice (root : Json) (start stop : Option Int) (items : List Json) :
    (slice start stop).select root [.array items] =
      (positions items.length start stop).filterMap (items[·]?) := by
  rw [select, List.flatMap_singleton, slice_array]

theorem select_union (root : Json) (selectors : List Selector) (found : List Json) :
    (union selectors).select root found =
      selectors.flatMap fun s => s.step.select root found := by
  simp only [select_step]
  rfl

theorem select_index (root : Json) (k : Nat) (items : List Json) :
    (index k).select root [.array items] = items[k]?.toList := by
  have helement : (Json.array items).element k = items[k]? := by simp [Json.element]
  rw [select, ← helement, List.filterMap_cons]
  cases (Json.array items).element k <;> rfl

theorem select_indices (root : Json) (ks : List Nat) (items : List Json) :
    (union (ks.map fun k : Nat => .index k)).select root [.array items] =
      ks.filterMap (items[·]?) := by
  rw [select_union, List.flatMap_map, List.filterMap_eq_flatMap_toList]
  exact List.flatMap_congr fun k _ => select_index root k items

theorem select_slice_append (root : Json) (k : Int) (items : List Json) :
    (slice none (some k)).select root [.array items] ++
      (slice (some k) none).select root [.array items] = items := by
  simp only [select, List.flatMap_singleton, Json.slice, Option.map_none, Option.map_some,
    Option.getD_none, Option.getD_some, List.drop_zero, List.take_length]
  exact List.take_append_drop _ items

theorem select_slice_of_not_isArray {v : Json} (h : v.isArray = false) (root : Json)
    (start stop : Option Int) : (slice start stop).select root [v] = [] := by
  cases v with
  | array items => cases h
  | _ => rfl

end Step

/-! ## Bounds on words -/

theorem toInt_add_ofNat {n : Nat} (hn : n < 9223372036854775808) {b : Int64} (hb : b.toInt < 0) :
    (Int64.ofNat n + b).toInt = n + b.toInt := by
  have hlow : -9223372036854775808 ≤ b.toInt := Int64.le_toInt b
  rw [Int64.toInt_add, Int64.toInt_ofNat_of_lt hn]
  exact Int.bmod_eq_of_le (by omega) (by omega)

theorem toInt_wordBound {n : Nat} (hn : n < 9223372036854775808) (b : Int64) :
    (wordBound (.ofNat n) b).toInt = Json.bound n b.toInt := by
  have hlength : (Int64.ofNat n).toInt = n := Int64.toInt_ofNat_of_lt hn
  rw [wordBound, Json.bound]
  simp only [Int64.lt_iff_toInt_lt, Int64.toInt_zero, apply_ite Int64.toInt, hlength]
  by_cases hneg : b.toInt < 0
  · simp only [hneg, if_true, toInt_add_ofNat hn hneg]
    omega
  · simp only [hneg, if_false]
    omega

namespace Step

/-- A slice takes the elements of an array at its positions in their order, as a list of just these
positions does, and nothing from other values. The slices up to a bound and from it on make up the
array, and a list of selectors takes what its selectors take one after the other. On words of 64
bits a bound comes to the same place, since a negative bound and a length have their sum in the
range. -/
theorem slice_laws (root : Json) :
    (∀ (items : List Json) (start stop : Option Int),
      (slice start stop).select root [.array items] =
        (positions items.length start stop).filterMap (items[·]?) ∧
      (slice start stop).select root [.array items] =
        (union ((List.Ico (place items.length 0 start).toNat
          (place items.length items.length stop).toNat).map fun k : Nat => .index k)).select root
            [.array items]) ∧
    (∀ (v : Json) (start stop : Option Int), v.isArray = false →
      (slice start stop).select root [v] = []) ∧
    (∀ (items : List Json) (k : Int),
      (slice none (some k)).select root [.array items] ++
        (slice (some k) none).select root [.array items] = items) ∧
    (∀ (selectors : List Selector) (found : List Json),
      (union selectors).select root found =
        selectors.flatMap fun s => s.step.select root found) ∧
    ∀ (n : Nat) (b : Int64), n < 9223372036854775808 →
      (b.toInt < 0 → (Int64.ofNat n + b).toInt = n + b.toInt) ∧
      ∀ absent, (wordBound (.ofNat n) b).toInt = place n absent (some b.toInt) := by
  refine ⟨fun items start stop => ⟨select_slice root start stop items, ?_⟩,
    fun v start stop h => select_slice_of_not_isArray h root start stop,
    fun items k => select_slice_append root k items, select_union root,
    fun n b hn => ⟨toInt_add_ofNat hn, fun absent => ?_⟩⟩
  · rw [select_slice, positions_eq_Ico, select_indices]
  · rw [toInt_wordBound hn, place_eq_bound]

/-- A text has no elements to take, and the lowest bound of all on words. -/
theorem slice_laws_sample :
    ((Json.string "text").isArray = false ∧
      (slice (some (-1)) none).select .null [.string "text"] = []) ∧
    (3 < 9223372036854775808 ∧ Int64.minValue.toInt < 0 ∧
      (Int64.ofNat 3 + Int64.minValue).toInt = -9223372036854775805 ∧
      (wordBound (.ofNat 3) .minValue).toInt = 0) := by
  obtain ⟨-, hother, -, -, hwords⟩ := slice_laws .null
  obtain ⟨hsum, hplace⟩ := hwords 3 .minValue (by decide)
  exact ⟨⟨rfl, hother (.string "text") _ _ rfl⟩,
    by decide, by decide, hsum (by decide), hplace 0⟩

/-- A slice from the end of four elements takes the last but one. -/
example : (slice (some (-2)) (some (-1))).select .null
    [.array [.bool true, .bool false, .string "a", .null]] = [.string "a"] := rfl

end Step
end PathQuery
