/-! Rounding a quotient to 53 significant bits.
Magnitudes are counted in units of `2^-1074`, the least positive double, so that every finite
double is a natural number of units and rounding is integer arithmetic. Rounding always lands on a
count of at most 53 significant bits (`spacing_roundUnits_dvd`), and leaves such a count as it is
(`roundUnits_self`). Powers are written with `Nat.pow`, whose meaning hangs on no instance, and
smaller ones as numerals: `9007199254740992` is `2^53`. -/
namespace PathQuery.Double

/-- The natural number nearest to `num / den`; a half goes to the even neighbour. -/
def nearestEven (num den : Nat) : Nat :=
  let low := num / den
  let twice := 2 * (num % den)
  if twice < den ∨ twice = den ∧ low % 2 = 0 then low else low + 1

/-- The distance between neighbouring doubles of the size of `n` units. -/
def spacing (n : Nat) : Nat := Nat.pow 2 (n.log2 - 52)

/-- The count of units nearest to `num / den` among those of 53 significant bits. -/
def roundUnits (num den : Nat) : Nat :=
  let step := spacing (num / den)
  nearestEven num (den * step) * step

theorem spacing_pos (n : Nat) : 0 < spacing n := Nat.two_pow_pos _

theorem spacing_of_lt {n : Nat} (h : n < 9007199254740992) : spacing n = 1 := by
  have : n.log2 - 52 = 0 := by
    by_cases h0 : n = 0
    · simp [h0]
    · have := (Nat.log2_lt h0).2 (show n < 2 ^ 53 from h)
      omega
  simp [spacing, this]

theorem nearestEven_le_succ (num den : Nat) : nearestEven num den ≤ num / den + 1 := by
  simp only [nearestEven]
  split <;> omega

theorem nearestEven_mul (n : Nat) {den : Nat} (h : 0 < den) : nearestEven (n * den) den = n := by
  simp [nearestEven, Nat.mul_div_cancel _ h, Nat.mul_mod_left, h]

/-- A significand of at most `2^53` steps, the last one included, is a double again. -/
theorem spacing_dvd_of_le {m e : Nat} (h : m ≤ 9007199254740992) :
    spacing (m * Nat.pow 2 e) ∣ m * Nat.pow 2 e := by
  simp only [spacing, Nat.pow_eq]
  rcases Nat.lt_or_ge m (2 ^ 53) with hm | hm
  · by_cases h0 : m = 0
    · simp [h0]
    · have hne : m * 2 ^ e ≠ 0 := Nat.mul_ne_zero h0 (Nat.pos_iff_ne_zero.1 (Nat.two_pow_pos e))
      have hlt : m * 2 ^ e < 2 ^ (53 + e) := by
        rw [Nat.pow_add]
        exact Nat.mul_lt_mul_of_pos_right hm (Nat.two_pow_pos e)
      have := (Nat.log2_lt hne).2 hlt
      exact Nat.dvd_trans (Nat.pow_dvd_pow 2 (by omega)) (Nat.dvd_mul_left _ _)
  · have : m = 2 ^ 53 := by omega
    subst this
    rw [← Nat.pow_add, Nat.log2_two_pow]
    exact Nat.pow_dvd_pow 2 (by omega)

/-- Rounding lands on a multiple of the spacing there, even when it carries into the next size. -/
theorem spacing_roundUnits_dvd (num den : Nat) :
    spacing (roundUnits num den) ∣ roundUnits num den := by
  unfold roundUnits
  refine spacing_dvd_of_le (Nat.le_trans (nearestEven_le_succ _ _) ?_)
  rw [← Nat.div_div_eq_div_mul]
  apply Nat.succ_le_of_lt
  show num / den / 2 ^ ((num / den).log2 - 52) < 2 ^ 53
  rw [Nat.div_lt_iff_lt_mul (Nat.two_pow_pos _), ← Nat.pow_add]
  exact Nat.lt_of_lt_of_le Nat.lt_log2_self (Nat.pow_le_pow_right (by decide) (by omega))

/-- A count of 53 significant bits is its own rounding. -/
theorem roundUnits_self {n : Nat} (h : spacing n ∣ n) : roundUnits n 1 = n := by
  obtain ⟨m, hm⟩ := h
  have hn : n = m * spacing n := by rw [Nat.mul_comm]; exact hm
  simp only [roundUnits, Nat.div_one, Nat.one_mul]
  generalize hs : spacing n = s at *
  have hpos : 0 < s := hs ▸ spacing_pos n
  subst hn
  rw [nearestEven_mul _ hpos]

end PathQuery.Double
