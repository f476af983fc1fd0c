import PathQuery.Proofs.Double.Integers
import PathQuery.Proofs.Printing.Words

/-! Positions and lexemes.
What a lexeme comes to within 64 bits is also what one for a whole number comes to. -/
namespace PathQuery

namespace Lexeme

def ofNat (negative : Bool) (n : Nat) : Lexeme where
  negative := negative
  whole := Nat.toDigits 10 n
  fraction := []
  whole_ne_nil := Nat.toDigits_ne_nil
  whole_digits _ hc := Nat.isDigit_of_mem_toDigits (by decide) (by decide) hc
  fraction_digits := by simp

theorem value_ofNat (negative : Bool) {n : Nat} (h : Representable (n * Double.one)) :
    (ofNat negative n).value = .finite ⟨negative, n * Double.one, h⟩ := by
  have hd : (ofNat negative n).numeral.decimal = ⟨n, 0⟩ := by
    simp [ofNat, numeral, Numeral.decimal, Numeral.digitsValue]
  rw [value, Numeral.toDouble, hd, Double.ofDecimal_nat]
  exact Double.round_of_representable negative h

theorem isIntegral_ofNat (negative : Bool) {n : Nat} (h : Representable (n * Double.one)) :
    (ofNat negative n).value.isIntegral = true := by
  simp [value_ofNat negative h, Double.isIntegral, FiniteDouble.isIntegral]

theorem toInt64_ofNat (negative : Bool) {n : Nat} (h : Representable (n * Double.one)) :
    (ofNat negative n).value.toInt64 =
      max Double.minInt64 (min (if negative then -(n : Int) else n) Double.maxInt64) := by
  have hw : (⟨negative, n * Double.one, h⟩ : FiniteDouble).whole = n :=
    Nat.mul_div_cancel n Double.one_pos
  simp [value_ofNat negative h, Double.toInt64, FiniteDouble.toInt, hw]

theorem exists_whole (x : Lexeme) :
    ∃ y : Lexeme, y.value.isIntegral = true ∧ y.value.toInt64 = x.value.toInt64 := by
  cases hx : x.value with
  | nan =>
    have h := Double.representable_mul_one (Nat.zero_le 9007199254740992)
    exact ⟨ofNat false 0, isIntegral_ofNat false h, by rw [toInt64_ofNat false h]; rfl⟩
  | infinite negative =>
    -- beyond the range on one side and its last integer on the other
    have h : Representable (9223372036854775808 * Double.one) :=
      Double.representable_two_pow_mul_one (k := 63) (by decide)
    refine ⟨ofNat negative 9223372036854775808, isIntegral_ofNat negative h, ?_⟩
    rw [toInt64_ofNat negative h]
    cases negative <;> decide
  | finite d =>
    have h := d.representable_whole
    refine ⟨ofNat d.negative d.whole, isIntegral_ofNat d.negative h, ?_⟩
    rw [toInt64_ofNat d.negative h]
    rfl

end Lexeme
end PathQuery
