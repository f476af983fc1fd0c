import PathQuery.Double.Rounding

/-! Double precision numbers.
A finite double is a sign and an exact count of units of `2^-1074`; beside the finite ones there are
two infinities and one NaN. Both zeros are kept apart, since their texts differ. -/
namespace PathQuery

/-- The count of units in one. -/
@[irreducible] def Double.one : Nat := Nat.pow 2 1074

/-- The count of units in `2^1024`, the first power of two beyond the finite doubles. -/
@[irreducible] def Double.limit : Nat := Nat.pow 2 2098

/-- Counts of units that a finite double can hold: at most 53 significant bits, below `2^1024`. -/
def Representable (n : Nat) : Prop := n < Double.limit ∧ Double.spacing n ∣ n

instance (n : Nat) : Decidable (Representable n) :=
  inferInstanceAs (Decidable (_ ∧ _))

/-- A finite double, `units * 2^-1074` with a sign. -/
structure FiniteDouble where
  negative : Bool
  units : Nat
  representable : Representable units
  deriving DecidableEq

/-- A double precision number. -/
inductive Double where
  | nan
  | infinite (negative : Bool)
  | finite (x : FiniteDouble)
  deriving DecidableEq

theorem Double.one_pos : 0 < Double.one := by
  unfold Double.one
  generalize 1074 = k
  exact Nat.two_pow_pos k

theorem Double.pow_le_limit {k : Nat} (h : k ≤ 2098) : Nat.pow 2 k ≤ Double.limit := by
  unfold Double.limit
  generalize 2098 = m at *
  exact Nat.pow_le_pow_right (by decide) h

theorem representable_of_lt {n : Nat} (h : n < 9007199254740992) : Representable n :=
  ⟨Nat.lt_of_lt_of_le (show n < Nat.pow 2 53 from h) (Double.pow_le_limit (by decide)),
    by rw [Double.spacing_of_lt h]; exact Nat.one_dvd n⟩

namespace FiniteDouble

def zero : FiniteDouble := ⟨false, 0, representable_of_lt (by decide)⟩

/-- The exact value, in units. -/
def signed (x : FiniteDouble) : Int := if x.negative then -(x.units : Int) else x.units

def isZero (x : FiniteDouble) : Bool := x.units == 0

def neg (x : FiniteDouble) : FiniteDouble := { x with negative := !x.negative }

def abs (x : FiniteDouble) : FiniteDouble := { x with negative := false }

/-- Equality of values: the two zeros are equal. -/
def sameValue (x y : FiniteDouble) : Bool := x.signed == y.signed

/-- Whether the value is a whole number. -/
def isIntegral (x : FiniteDouble) : Bool := x.units % Double.one == 0

/-- The whole part of the magnitude. -/
def whole (x : FiniteDouble) : Nat := x.units / Double.one

/-- The value without its fraction, as an integer. -/
def toInt (x : FiniteDouble) : Int := if x.negative then -(x.whole : Int) else x.whole

end FiniteDouble

namespace Double

/-- The double nearest to `num / den` units with the given sign; ties go to the even significand,
and what lies half a step or more above the largest finite double becomes infinite. -/
def round (negative : Bool) (num den : Nat) : Double :=
  if h : roundUnits num den < limit then
    .finite ⟨negative, roundUnits num den, h, spacing_roundUnits_dvd num den⟩
  else .infinite negative

/-- The double nearest to an integer. -/
def ofInt (i : Int) : Double := round (i < 0) (i.natAbs * one) 1

/-- Whether this is a finite whole number. -/
def isIntegral : Double → Bool
  | .finite x => x.isIntegral
  | _ => false

/-- Drops the fraction, keeping the sign. -/
def trunc : Double → Double
  | .finite x => round x.negative (x.whole * one) 1
  | x => x

/-- The least 64-bit integer, `-2^63`. -/
def minInt64 : Int := -9223372036854775808

/-- The greatest 64-bit integer, `2^63 - 1`. -/
def maxInt64 : Int := 9223372036854775807

/-- The nearest of the 64-bit integers after the fraction is dropped; NaN counts as zero. -/
def toInt64 : Double → Int
  | .nan => 0
  | .infinite negative => if negative then minInt64 else maxInt64
  | .finite x => max minInt64 (min x.toInt maxInt64)

end Double
end PathQuery
