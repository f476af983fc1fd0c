import PathQuery.Double.Basic

/-! The 64-bit interchange form of a double: a sign bit, an exponent field of 11 bits and a fraction
of 52 bits. On magnitudes the field and the fraction form one number, which grows with the value. -/
namespace PathQuery.Double

/-- How many fractions there are, `2^52`. -/
def fractionCount : Nat := 4503599627370496

/-- The place of the sign bit, `2^63`. -/
def signBit : Nat := 9223372036854775808

/-- The units that an exponent field and a fraction stand for. -/
def unitsOfFields (field fraction : Nat) : Nat :=
  if field = 0 then fraction else (fractionCount + fraction) * Nat.pow 2 (field - 1)

theorem representable_unitsOfFields {field fraction : Nat} (hf : field < 2047)
    (hr : fraction < fractionCount) : Representable (unitsOfFields field fraction) := by
  unfold fractionCount at hr
  unfold unitsOfFields fractionCount
  split
  · exact representable_of_lt (by omega)
  · refine ⟨?_, spacing_dvd_of_le (by omega)⟩
    have hlt : (4503599627370496 + fraction) * 2 ^ (field - 1) < 2 ^ 53 * 2 ^ (field - 1) :=
      Nat.mul_lt_mul_of_pos_right (by omega) (Nat.two_pow_pos _)
    rw [← Nat.pow_add] at hlt
    exact Nat.lt_of_lt_of_le hlt (pow_le_limit (by omega))

/-- Reads a word; every NaN pattern is the same NaN. -/
def ofBits (bits : UInt64) : Double :=
  let negative := decide (signBit ≤ bits.toNat)
  let field := bits.toNat / fractionCount % 2048
  let fraction := bits.toNat % fractionCount
  if h : field < 2047 then
    .finite ⟨negative, unitsOfFields field fraction,
      representable_unitsOfFields h (Nat.mod_lt _ (by decide))⟩
  else if fraction = 0 then .infinite negative
  else .nan

/-- The word of a finite magnitude: the steps taken inside its size, after `2^52` for each size. -/
def magnitudeBits (units : Nat) : Nat :=
  (units.log2 - 52) * fractionCount + units / spacing units

/-- The word of a double; the quiet pattern `7ff8000000000000` stands for NaN. -/
def toBits : Double → UInt64
  | .nan => 0x7ff8000000000000
  | .infinite negative => if negative then 0xfff0000000000000 else 0x7ff0000000000000
  | .finite x => UInt64.ofNat ((if x.negative then signBit else 0) + magnitudeBits x.units)

end PathQuery.Double
