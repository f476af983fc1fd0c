import Mathlib.Algebra.Order.Group.Unbundled.Int
import PathQuery.Proofs.Double.Integers

/-! The double nearest to an integer.
Rounding never changes the order of two numbers, though it can make them equal. So the doubles of two
integers are in the order of the integers or equal, and the latter does not happen next to an integer
below `2^53` in magnitude, since there the neighbours are doubles themselves. -/
namespace PathQuery.Double

/-! ## Rounding keeps the order -/

theorem nearestEven_mono {n m : Nat} (den : Nat) (h : n ≤ m) :
    nearestEven n den ≤ nearestEven m den := by
  have hlow : n / den ≤ m / den := Nat.div_le_div_right h
  have hn := Nat.div_add_mod n den
  have hm := Nat.div_add_mod m den
  simp only [nearestEven]
  rcases Nat.eq_or_lt_of_le hlow with heq | hlt
  · -- in one step of the grid the remainders are in the order of the numbers
    have hrest : n % den ≤ m % den := by rw [heq] at hn; omega
    rw [heq]
    split <;> split <;> omega
  · split <;> split <;> omega

/-- Rounding does not go below a point of the grid. -/
theorem le_roundUnits {n b : Nat} (hb : spacing n ∣ b) (h : b ≤ n) : b ≤ roundUnits n 1 := by
  obtain ⟨q, rfl⟩ := hb
  have hq : q ≤ n / spacing n := (Nat.le_div_iff_mul_le (spacing_pos n)).mpr (Nat.mul_comm _ _ ▸ h)
  have hlow : n / spacing n ≤ nearestEven n (spacing n) := by
    simp only [nearestEven]
    split <;> omega
  simp only [roundUnits, Nat.div_one, Nat.one_mul]
  rw [Nat.mul_comm (spacing n) q]
  exact Nat.mul_le_mul_right _ (hq.trans hlow)

/-- Rounding does not go above a point of the grid. -/
theorem roundUnits_le {n b : Nat} (hb : spacing n ∣ b) (h : n ≤ b) : roundUnits n 1 ≤ b := by
  obtain ⟨q, rfl⟩ := hb
  have hq : nearestEven n (spacing n) ≤ nearestEven (q * spacing n) (spacing n) :=
    nearestEven_mono _ (Nat.mul_comm _ _ ▸ h)
  rw [nearestEven_mul q (spacing_pos n)] at hq
  simp only [roundUnits, Nat.div_one, Nat.one_mul]
  rw [Nat.mul_comm (spacing n) q]
  exact Nat.mul_le_mul_right _ hq

theorem roundUnits_mono {n m : Nat} (h : n ≤ m) : roundUnits n 1 ≤ roundUnits m 1 := by
  by_cases hlog : n.log2 = m.log2
  · have hspacing : spacing n = spacing m := by rw [spacing, spacing, hlog]
    simp only [roundUnits, Nat.div_one, Nat.one_mul, hspacing]
    exact Nat.mul_le_mul_right _ (nearestEven_mono _ h)
  · -- a power of two lies between numbers of different sizes, and it is on both grids
    by_cases hn : n = 0
    · have hzero : roundUnits n 1 = 0 := by rw [hn]; rfl
      omega
    have hm : m ≠ 0 := by omega
    have hle : n.log2 ≤ m.log2 := (Nat.le_log2 hm).mpr ((Nat.log2_self_le hn).trans h)
    have hbelow : n ≤ 2 ^ m.log2 := ((Nat.log2_lt hn).mp (by omega)).le
    have habove : 2 ^ m.log2 ≤ m := Nat.log2_self_le hm
    have hgridn : spacing n ∣ 2 ^ m.log2 := Nat.pow_dvd_pow 2 (by omega)
    have hgridm : spacing m ∣ 2 ^ m.log2 := Nat.pow_dvd_pow 2 (by omega)
    exact (roundUnits_le hgridn hbelow).trans (le_roundUnits hgridm habove)

/-! ## The doubles of integers -/

/-- The value in units of the double nearest to an integer; beyond the doubles it is their limit. -/
def unitsOfInt (i : Int) : Int := i.sign * (min (roundUnits (i.natAbs * one) 1) limit : Nat)

theorem key?_round (negative : Bool) (num den : Nat) : (round negative num den).key? =
    some (if negative then -((min (roundUnits num den) limit : Nat) : Int)
      else ((min (roundUnits num den) limit : Nat) : Int)) := by
  unfold round
  split
  case isTrue h =>
    rw [Nat.min_eq_left h.le]
    rfl
  case isFalse h =>
    rw [Nat.min_eq_right (Nat.le_of_not_lt h)]
    rfl

theorem key?_ofInt (i : Int) : (ofInt i).key? = some (unitsOfInt i) := by
  rw [ofInt, key?_round, unitsOfInt]
  rcases lt_trichotomy i 0 with hneg | rfl | hpos
  · simp [hneg, Int.sign_eq_neg_one_of_neg hneg]
  · have hzero : roundUnits 0 1 = 0 := rfl
    simp [hzero]
  · simp [hpos.not_gt, Int.sign_eq_one_of_pos hpos]

theorem unitsOfInt_mono {i j : Int} (h : i ≤ j) : unitsOfInt i ≤ unitsOfInt j := by
  have hround : ∀ {n m : Nat}, n ≤ m →
      min (roundUnits (n * one) 1) limit ≤ min (roundUnits (m * one) 1) limit :=
    fun hnm => min_le_min_right _ (roundUnits_mono (Nat.mul_le_mul_right _ hnm))
  unfold unitsOfInt
  rcases lt_trichotomy i 0 with hi | rfl | hi
  · rw [Int.sign_eq_neg_one_of_neg hi]
    rcases lt_trichotomy j 0 with hj | rfl | hj
    · rw [Int.sign_eq_neg_one_of_neg hj]
      have := @hround j.natAbs i.natAbs (by omega)
      omega
    · simp
    · rw [Int.sign_eq_one_of_pos hj]
      omega
  · rcases h.lt_or_eq with hj | rfl
    · rw [Int.sign_eq_one_of_pos hj]
      simp
    · exact le_rfl
  · rw [Int.sign_eq_one_of_pos hi, Int.sign_eq_one_of_pos (by omega)]
    have := @hround i.natAbs j.natAbs (by omega)
    omega

/-- Up to `2^53` the nearest double is the integer itself. -/
theorem unitsOfInt_eq {i : Int} (h : i.natAbs ≤ 9007199254740992) : unitsOfInt i = i * one := by
  have hn : Representable (i.natAbs * one) := representable_mul_one h
  rw [unitsOfInt, roundUnits_self hn.2, Nat.min_eq_left hn.1.le, Int.natCast_mul, ← Int.mul_assoc,
    Int.sign_mul_natAbs]

/-- No fraction arises: either the units of one lie on the grid, or the grid lies in them. -/
theorem one_dvd_roundUnits (n : Nat) : one ∣ roundUnits (n * one) 1 := by
  rcases spacing_dvd_one_or (n * one) with h | h
  · rw [roundUnits_self (Nat.dvd_trans h (Nat.dvd_mul_left one n))]
    exact Nat.dvd_mul_left one n
  · simp only [roundUnits, Nat.div_one]
    exact Nat.dvd_trans h (Nat.dvd_mul_left _ _)

/-- The double of an integer of 64 bits, with or without a sign, is finite and whole. -/
theorem exists_ofInt {i : Int} (h : i.natAbs ≤ 18446744073709551616) :
    ∃ x, ofInt i = .finite x ∧ x.isIntegral = true ∧ x.signed = unitsOfInt i := by
  have htop : Representable (18446744073709551616 * one) :=
    representable_two_pow_mul_one (k := 64) (by decide)
  have hlimit : roundUnits (i.natAbs * one) 1 < limit := by
    calc roundUnits (i.natAbs * one) 1
        ≤ roundUnits (18446744073709551616 * one) 1 := roundUnits_mono (Nat.mul_le_mul_right _ h)
      _ = 18446744073709551616 * one := roundUnits_self htop.2
      _ < limit := htop.1
  have hfinite : ofInt i = .finite ⟨i < 0, roundUnits (i.natAbs * one) 1, hlimit,
      spacing_roundUnits_dvd _ _⟩ := by
    rw [ofInt, round, dif_pos hlimit]
  refine ⟨_, hfinite, ?_, ?_⟩
  · rw [FiniteDouble.isIntegral, beq_iff_eq]
    exact Nat.mod_eq_zero_of_dvd (one_dvd_roundUnits _)
  · have hkey := key?_ofInt i
    rw [hfinite] at hkey
    exact Option.some.inj hkey

/-- An integer below `2^53` in magnitude shares its double with no other integer. -/
theorem eq_of_unitsOfInt_eq {i j : Int} (hi : i.natAbs < 9007199254740992)
    (h : unitsOfInt i = unitsOfInt j) : i = j := by
  have hone : (0 : Int) < one := Int.natCast_pos.mpr one_pos
  have hself : unitsOfInt i = i * one := unitsOfInt_eq hi.le
  -- the neighbours of `i` are doubles, and everything on their far side stays there
  rcases lt_trichotomy i j with hlt | heq | hgt
  · have hnext : unitsOfInt (i + 1) = (i + 1) * one := unitsOfInt_eq (by omega)
    have hmono : unitsOfInt (i + 1) ≤ unitsOfInt j := unitsOfInt_mono hlt
    rw [hnext, ← h, hself, Int.add_mul, Int.one_mul] at hmono
    omega
  · exact heq
  · have hnext : unitsOfInt (i - 1) = (i - 1) * one := unitsOfInt_eq (by omega)
    have hmono : unitsOfInt j ≤ unitsOfInt (i - 1) := unitsOfInt_mono (by omega)
    rw [hnext, ← h, hself, Int.sub_mul, Int.one_mul] at hmono
    omega

/-! ## Comparing integers as doubles -/

theorem compare?_ofInt (i j : Int) :
    (ofInt i).compare? (ofInt j) = some (compare (unitsOfInt i) (unitsOfInt j)) := by
  rw [compare?, key?_ofInt, key?_ofInt]

theorem eq_ofInt_iff {i j : Int} : (ofInt i).eq (ofInt j) = true ↔ unitsOfInt i = unitsOfInt j := by
  simp [Double.eq, compare?_ofInt]

/-- Whether doubles keep two integers apart, if they are not the same. -/
def TellsApart (i j : Int) : Prop := (ofInt i).eq (ofInt j) = true → i = j

theorem tellsApart_of_lt {i j : Int}
    (h : i.natAbs < 9007199254740992 ∨ j.natAbs < 9007199254740992) : TellsApart i j := by
  intro heq
  have hunits : unitsOfInt i = unitsOfInt j := eq_ofInt_iff.mp heq
  rcases h with hi | hj
  · exact eq_of_unitsOfInt_eq hi hunits
  · exact (eq_of_unitsOfInt_eq hj hunits.symm).symm

theorem eq_ofInt_of_tellsApart {i j : Int} (h : TellsApart i j) :
    (ofInt i).eq (ofInt j) = decide (i = j) := by
  by_cases hij : i = j
  · rw [hij, decide_eq_true rfl]
    exact eq_ofInt_iff.mpr rfl
  · rw [decide_eq_false hij]
    exact Bool.eq_false_iff.mpr fun heq => hij (h heq)

/-- Doubles that are apart are in the order of their integers. -/
theorem compare?_ofInt_of_tellsApart {i j : Int} (h : TellsApart i j) :
    (ofInt i).compare? (ofInt j) = some (compare i j) := by
  have hne : i ≠ j → unitsOfInt i ≠ unitsOfInt j :=
    fun hij hunits => hij (h (eq_ofInt_iff.mpr hunits))
  rw [compare?_ofInt]
  rcases lt_trichotomy i j with hlt | rfl | hgt
  · have hunits : unitsOfInt i < unitsOfInt j :=
      lt_of_le_of_ne (unitsOfInt_mono hlt.le) (hne hlt.ne)
    rw [Int.compare_eq_lt.mpr hunits, Int.compare_eq_lt.mpr hlt]
  · rw [Std.compare_self, Std.compare_self]
  · have hunits : unitsOfInt j < unitsOfInt i :=
      lt_of_le_of_ne (unitsOfInt_mono hgt.le) (hne hgt.ne').symm
    rw [Int.compare_eq_gt.mpr hunits, Int.compare_eq_gt.mpr hgt]

end PathQuery.Double
