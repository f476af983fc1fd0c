import Mathlib.Tactic.Common
import PathQuery.Json.Basic

/-! Whole numbers among the doubles.
Up to `2^53` every integer is a double, and reading it back gives the integer again. -/
namespace PathQuery

namespace Double

theorem round_of_representable {n : Nat} (negative : Bool) (h : Representable n) :
    round negative n 1 = .finite ⟨negative, n, h⟩ := by
  have hn := roundUnits_self h.2
  simp [round, hn, h.1]

theorem spacing_dvd_spacing {n m : Nat} (h : n ≤ m) : spacing n ∣ spacing m := by
  have hl : n.log2 ≤ m.log2 := by
    by_cases hn : n = 0
    · simp [hn]
    · rw [Nat.le_log2 (by omega)]
      exact Nat.le_trans (Nat.log2_self_le hn) h
  exact Nat.pow_dvd_pow 2 (Nat.sub_le_sub_right hl 52)

theorem spacing_dvd_one_or (n : Nat) : spacing n ∣ one ∨ one ∣ spacing n := by
  unfold spacing one
  generalize 1074 = k
  rcases Nat.le_total (n.log2 - 52) k with h | h
  · exact .inl (Nat.pow_dvd_pow 2 h)
  · exact .inr (Nat.pow_dvd_pow 2 h)

theorem representable_mul_two_pow {m e : Nat} (hm : m ≤ 9007199254740992) (he : e ≤ 2044) :
    Representable (m * Nat.pow 2 e) := by
  refine ⟨?_, spacing_dvd_of_le hm⟩
  have hlt : m * 2 ^ e < 2 ^ 54 * 2 ^ e :=
    Nat.mul_lt_mul_of_pos_right (by omega) (Nat.two_pow_pos e)
  rw [← Nat.pow_add] at hlt
  exact Nat.lt_of_lt_of_le hlt (pow_le_limit (by omega))

theorem representable_mul_one {n : Nat} (h : n ≤ 9007199254740992) : Representable (n * one) := by
  have hk := representable_mul_two_pow (e := 1074) h (by decide)
  unfold one
  generalize 1074 = k at hk ⊢
  exact hk

/-- Beyond `2^53` the powers of two are doubles still. -/
theorem representable_two_pow_mul_one {k : Nat} (h : k ≤ 970) :
    Representable (Nat.pow 2 k * one) := by
  have hk := representable_mul_two_pow (m := 1) (e := k + 1074) (by decide) (by omega)
  unfold one
  generalize 1074 = j at hk ⊢
  have hp : Nat.pow 2 k * Nat.pow 2 j = 1 * Nat.pow 2 (k + j) := by
    rw [Nat.one_mul]
    exact (Nat.pow_add 2 k j).symm
  rw [hp]
  exact hk

end Double

namespace FiniteDouble
open Double

/-- The whole part of a finite double is one. -/
theorem representable_whole (x : FiniteDouble) : Representable (x.whole * one) := by
  have hle : x.whole * one ≤ x.units := Nat.div_mul_le_self x.units one
  refine ⟨Nat.lt_of_le_of_lt hle x.representable.1, ?_⟩
  rcases spacing_dvd_one_or x.units with h | h
  · exact Nat.dvd_trans (Nat.dvd_trans (spacing_dvd_spacing hle) h) (Nat.dvd_mul_left _ _)
  · have hd : one ∣ x.units := Nat.dvd_trans h x.representable.2
    have he : x.whole * one = x.units := Nat.div_mul_cancel hd
    rw [he]
    exact x.representable.2

end FiniteDouble

namespace Double

variable {i : Int}

/-- An integer of at most `2^53` in magnitude is a double. -/
theorem ofInt_eq (h : i.natAbs ≤ 9007199254740992) :
    ofInt i = .finite ⟨i < 0, i.natAbs * one, representable_mul_one h⟩ := by
  rw [ofInt, round_of_representable]

theorem isIntegral_ofInt (h : i.natAbs ≤ 9007199254740992) : (ofInt i).isIntegral = true := by
  rw [ofInt_eq h, isIntegral, FiniteDouble.isIntegral, Nat.mul_mod_left]
  rfl

end Double

namespace FiniteDouble

/-- The whole part of a whole number of units. -/
theorem whole_mul_one {negative : Bool} {n : Nat} (h : Representable (n * Double.one)) :
    (⟨negative, n * Double.one, h⟩ : FiniteDouble).whole = n :=
  Nat.mul_div_cancel n Double.one_pos

theorem toInt_natAbs {i : Int} (h : Representable (i.natAbs * Double.one)) :
    (⟨i < 0, i.natAbs * Double.one, h⟩ : FiniteDouble).toInt = i := by
  simp only [toInt, whole_mul_one, decide_eq_true_eq]
  split <;> omega

end FiniteDouble

namespace Double

variable {i : Int}

theorem toInt64_ofInt (h : i.natAbs ≤ 9007199254740992) : (ofInt i).toInt64 = i := by
  rw [ofInt_eq h, toInt64, FiniteDouble.toInt_natAbs]
  unfold minInt64 maxInt64
  omega

end Double

/-- A small integer is stored as an integer again after it has been a double. -/
theorem Number.ofDouble?_ofInt {i : Int} (h : i.natAbs < 9000000000000000) :
    ofDouble? (.ofInt i) = some (.int i) := by
  have hb : i.natAbs ≤ 9007199254740992 := by omega
  have hi := Double.isIntegral_ofInt hb
  rw [Double.ofInt_eq hb] at hi ⊢
  rw [Double.isIntegral] at hi
  rw [ofDouble?, FiniteDouble.toInt_natAbs, FiniteDouble.whole_mul_one, hi]
  simp [h]

end PathQuery
