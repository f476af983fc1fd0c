import PathQuery.Double.Decimal

/-! Decimal numerals: an optional sign, digits with a point anywhere among them or none, and an
optional power of ten. Reading takes the longest numeral at the start of a text, so that a point or
an `e` which no digit needs stays unread. -/
namespace PathQuery

/-- A numeral as it is written. -/
structure Numeral where
  negative : Bool
  whole : List Char
  fraction : List Char
  exponent : Int
  deriving DecidableEq

namespace Numeral

/-- The number that a row of digits denotes. -/
def digitsValue (digits : List Char) : Nat := Nat.ofDigitChars 10 digits 0

/-- The digits as one integer, moved by the power of ten and by the digits after the point. -/
def decimal (n : Numeral) : Decimal :=
  ⟨digitsValue (n.whole ++ n.fraction), n.exponent - n.fraction.length⟩

/-- The nearest double, infinite where the numeral is too large. -/
def toDouble (n : Numeral) : Double := .ofDecimal n.negative n.decimal

/-- Whether a minus sign starts the text, and the text after its sign. -/
def sign : List Char → Bool × List Char
  | '-' :: cs => (true, cs)
  | '+' :: cs => (false, cs)
  | cs => (false, cs)

/-- The digits before and after the point, one of which may be missing, and what follows. -/
def mantissa? (cs : List Char) : Option (List Char × List Char × List Char) :=
  let whole := cs.takeWhile Char.isDigit
  match cs.dropWhile Char.isDigit with
  | '.' :: rest =>
    let fraction := rest.takeWhile Char.isDigit
    if whole.isEmpty && fraction.isEmpty then none
    else some (whole, fraction, rest.dropWhile Char.isDigit)
  | rest => if whole.isEmpty then none else some (whole, [], rest)

/-- The power of ten and what follows; without a digit after the `e` there is none. -/
def power : List Char → Int × List Char
  | [] => (0, [])
  | c :: cs =>
    if c = 'e' ∨ c = 'E' then
      let (negative, rest) := sign cs
      let digits := rest.takeWhile Char.isDigit
      if digits.isEmpty then (0, c :: cs)
      else
        let size : Int := digitsValue digits
        (if negative then -size else size, rest.dropWhile Char.isDigit)
    else (0, c :: cs)

/-- The longest numeral at the start of a text, and what follows it. -/
def read? (cs : List Char) : Option (Numeral × List Char) :=
  let (negative, unsigned) := sign cs
  match mantissa? unsigned with
  | none => none
  | some (whole, fraction, rest) =>
    let (exponent, rest) := power rest
    some (⟨negative, whole, fraction, exponent⟩, rest)

/-- The numeral that is the whole text. -/
def ofChars? (cs : List Char) : Option Numeral :=
  match read? cs with
  | some (n, []) => some n
  | _ => none

end Numeral
end PathQuery
