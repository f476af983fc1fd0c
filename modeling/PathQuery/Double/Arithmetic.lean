import PathQuery.Double.Basic

/-! Arithmetic and comparison of doubles.
Each operation is the exact result on units, rounded once; the cases around them are the rules for
infinities, for NaN and for the sign of a zero. -/
namespace PathQuery.Double

/-- The sign changes, of zeros and infinities too. -/
def neg : Double → Double
  | .nan => .nan
  | .infinite negative => .infinite !negative
  | .finite x => .finite x.neg

/-- A sum of zero is `-0` only when both operands are. -/
def add : Double → Double → Double
  | .nan, _ => .nan
  | _, .nan => .nan
  | .infinite a, .infinite b => if a = b then .infinite a else .nan
  | .infinite a, .finite _ => .infinite a
  | .finite _, .infinite b => .infinite b
  | .finite x, .finite y =>
    let sum := x.signed + y.signed
    round (sum < 0 || (x.negative && y.negative)) sum.natAbs 1

def sub (x y : Double) : Double := x.add y.neg

/-- Zero times an infinity is no number. -/
def mul : Double → Double → Double
  | .nan, _ => .nan
  | _, .nan => .nan
  | .infinite a, .infinite b => .infinite (a != b)
  | .infinite a, .finite y => if y.isZero then .nan else .infinite (a != y.negative)
  | .finite x, .infinite b => if x.isZero then .nan else .infinite (x.negative != b)
  | .finite x, .finite y => round (x.negative != y.negative) (x.units * y.units) one

/-- A nonzero number over zero is infinite; zero over zero is no number. -/
def div : Double → Double → Double
  | .nan, _ => .nan
  | _, .nan => .nan
  | .infinite _, .infinite _ => .nan
  | .infinite a, .finite y => .infinite (a != y.negative)
  | .finite x, .infinite b => round (x.negative != b) 0 1
  | .finite x, .finite y =>
    if y.isZero then
      if x.isZero then .nan else .infinite (x.negative != y.negative)
    else round (x.negative != y.negative) (x.units * one) y.units

/-- The value in units, infinities lying just beyond the finite doubles; none for NaN. -/
def key? : Double → Option Int
  | .nan => none
  | .infinite negative => some (if negative then -(limit : Int) else limit)
  | .finite x => some x.signed

/-- Compares by value; a NaN compares with nothing. -/
def compare? (x y : Double) : Option Ordering :=
  match x.key?, y.key? with
  | some a, some b => some (compare a b)
  | _, _ => none

/-- Equality of values: the zeros are equal, a NaN equals nothing. -/
def eq (x y : Double) : Bool := x.compare? y == some .eq

end PathQuery.Double
