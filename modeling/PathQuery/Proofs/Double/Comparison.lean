import Mathlib.Tactic.Common
import PathQuery.Json.Equality

/-! Equality of doubles by value.
Apart from NaN every double has a place on the line of values, and two of them are equal when they
have the same place. Stored numbers are never NaN, so on them this is an equivalence. -/
namespace PathQuery

namespace Double

variable {x y z : Double}

/-- Two doubles are equal if they have one value in units. -/
theorem eq_iff_key? : x.eq y = true ↔ ∃ k, x.key? = some k ∧ y.key? = some k := by
  unfold Double.eq compare?
  cases x.key? with
  | none => simp
  | some a =>
    cases y.key? with
    | none => simp
    | some b =>
      constructor
      · intro h
        have hab : a = b := by simpa using h
        exact ⟨a, rfl, congrArg some hab.symm⟩
      · rintro ⟨k, ha, hb⟩
        cases ha
        cases hb
        simp

theorem key?_ne_none (h : x ≠ .nan) : x.key? ≠ none := by
  cases x with
  | nan => exact absurd rfl h
  | infinite negative => simp [key?]
  | finite x => simp [key?]

theorem eq_self (h : x ≠ .nan) : x.eq x = true := by
  obtain ⟨k, hk⟩ := Option.ne_none_iff_exists'.mp (key?_ne_none h)
  exact eq_iff_key?.mpr ⟨k, hk, hk⟩

theorem eq_symm (h : x.eq y = true) : y.eq x = true := by
  obtain ⟨k, hx, hy⟩ := eq_iff_key?.mp h
  exact eq_iff_key?.mpr ⟨k, hy, hx⟩

theorem eq_trans (hxy : x.eq y = true) (hyz : y.eq z = true) : x.eq z = true := by
  obtain ⟨k, hx, hy⟩ := eq_iff_key?.mp hxy
  obtain ⟨l, hy', hz⟩ := eq_iff_key?.mp hyz
  have hkl : k = l := Option.some.inj (hy.symm.trans hy')
  exact eq_iff_key?.mpr ⟨k, hx, hkl ▸ hz⟩

theorem round_ne_nan (negative : Bool) (num den : Nat) : round negative num den ≠ .nan := by
  unfold round
  split <;> simp

end Double

namespace Number

theorem toDouble_ne_nan (n : Number) : n.toDouble ≠ .nan := by
  cases n with
  | int i => exact Double.round_ne_nan _ _ _
  | float x => simp [toDouble]

/-! ## Equality of stored numbers -/

variable {a b c : Number}

theorem same_self (a : Number) : a.same a = true := by
  cases a <;> simp [same, FiniteDouble.sameValue]

theorem same_symm (h : a.same b = true) : b.same a = true := by
  cases a <;> cases b <;> simp_all [same, FiniteDouble.sameValue]

theorem same_trans (hab : a.same b = true) (hbc : b.same c = true) : a.same c = true := by
  cases a <;> cases b <;> cases c <;> simp_all [same, FiniteDouble.sameValue]

/-- Numbers that are stored alike with equal values are equal as doubles. -/
theorem toDouble_eq_of_same (h : a.same b = true) : a.toDouble.eq b.toDouble = true := by
  cases a with
  | int i =>
    cases b with
    | int j =>
      have hij : i = j := by simpa [same] using h
      rw [hij]
      exact Double.eq_self (toDouble_ne_nan (.int j))
    | float y => cases h
  | float x =>
    cases b with
    | int j => cases h
    | float y =>
      have hxy : x.signed = y.signed := by simpa [same, FiniteDouble.sameValue] using h
      exact Double.eq_iff_key?.mpr ⟨y.signed, congrArg some hxy, rfl⟩

end Number
end PathQuery
