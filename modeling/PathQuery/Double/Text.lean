import PathQuery.Double.Arithmetic
import PathQuery.Double.Shortest

/-! The text of a double.
A whole number is written with all its digits and any other with the fewest digits that read back.
Magnitudes in the range of the layout are written positionally, the others with one digit before the
point and an exponent that always has a sign. Zero is positional and keeps its sign. -/
namespace PathQuery

/-- The magnitudes that are written positionally: from one decimal up to, but not including,
another. -/
structure Layout where
  positionalFrom : Decimal
  positionalBelow : Decimal

/-- Whether a magnitude is written positionally. -/
def Layout.isPositional (layout : Layout) (x : FiniteDouble) : Bool :=
  let size := Double.finite x.abs
  x.isZero || (size.compare? (.ofDecimal false layout.positionalFrom) != some .lt &&
    size.compare? (.ofDecimal false layout.positionalBelow) == some .lt)

namespace Decimal

/-- The digits of a decimal without trailing zeros. -/
def significant (d : Decimal) : List Char :=
  ((Nat.toDigits 10 d.digits).reverse.dropWhile (· == '0')).reverse

/-- How many of the digits stand before the point; a negative count means zeros after it. -/
def point (d : Decimal) : Int := (Nat.toDigits 10 d.digits).length + d.exponent

/-- Positional notation. -/
def positional (d : Decimal) : List Char :=
  if d.point ≤ 0 then ['0', '.'] ++ List.replicate (-d.point).toNat '0' ++ d.significant
  else
    let before := d.significant.take d.point.toNat
    let after := d.significant.drop d.point.toNat
    before ++ List.replicate (d.point.toNat - before.length) '0' ++
      (if after.isEmpty then [] else '.' :: after)

/-- One digit before the point, the others after it, and a signed exponent. -/
def scientific (d : Decimal) : List Char :=
  let exponent := d.point - 1
  let fraction := d.significant.drop 1
  d.significant.take 1 ++ (if fraction.isEmpty then [] else '.' :: fraction) ++
    ['e', if exponent < 0 then '-' else '+'] ++ Nat.toDigits 10 exponent.natAbs

end Decimal

namespace FiniteDouble

/-- The text of a magnitude. -/
def magnitudeText (x : FiniteDouble) (layout : Layout) : List Char :=
  if layout.isPositional x then
    if x.isIntegral then Nat.toDigits 10 x.whole else x.shortestDecimal.positional
  else x.shortestDecimal.scientific

/-- The text of a finite double. -/
def text (x : FiniteDouble) (layout : Layout) : String :=
  String.ofList ((if x.negative then ['-'] else []) ++ x.magnitudeText layout)

end FiniteDouble
end PathQuery
