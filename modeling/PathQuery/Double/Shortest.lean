import PathQuery.Double.Decimal

/-! The shortest decimal that reads back as a given double.
On the grid of decimals with `n` digits only the two neighbours of the value can be the nearest that
reads back; the first grid with a hit gives the fewest digits, and of two hits the nearer one is
taken, the larger in a tie. -/
namespace PathQuery.FiniteDouble

/-- How many digits stand before the point: the magnitude is below `10^point`, and no smaller power
will do.
A positive double exceeds `10^-400`, so nothing of its first digit is lost in the quotient. -/
def magnitudePoint (x : FiniteDouble) : Int :=
  (Nat.toDigits 10 (x.units * Nat.pow 10 400 / Double.one)).length - 400

/-- Whether a decimal rounds to the magnitude of `x`. -/
def readsBack (x : FiniteDouble) (d : Decimal) : Bool :=
  Double.ofDecimal false d == .finite x.abs

/-- Of two neighbouring decimals the one that rounds to the magnitude of `x`; if both do, `nearer`
tells which to take. -/
def pick? (x : FiniteDouble) (below above : Decimal) (nearer : Decimal) : Option Decimal :=
  match x.readsBack below, x.readsBack above with
  | false, false => none
  | true, false => some below
  | false, true => some above
  | true, true => some nearer

/-- The decimal of `n` digits nearest to the magnitude of `x`, if one of them rounds to it. -/
def decimalOfWidth? (x : FiniteDouble) (n : Nat) : Option Decimal :=
  let exponent := x.magnitudePoint - n
  let num := x.units * Nat.pow 10 (-exponent).toNat
  let den := Double.one * Nat.pow 10 exponent.toNat
  let below : Decimal := ⟨num / den, exponent⟩
  let above : Decimal := ⟨num / den + 1, exponent⟩
  x.pick? below above (if 2 * (num % den) < den then below else above)

/-- The exact magnitude as a decimal: a unit is `5^1074 * 10^-1074`. -/
def exactDecimal (x : FiniteDouble) : Decimal := ⟨x.units * Nat.pow 5 1074, -1074⟩

/-- The decimal of fewest digits that rounds to the magnitude of `x`; 17 digits always suffice. -/
def shortestDecimal (x : FiniteDouble) : Decimal :=
  ((List.range' 1 17).findSome? x.decimalOfWidth?).getD x.exactDecimal

end PathQuery.FiniteDouble
