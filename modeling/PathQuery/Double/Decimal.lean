import PathQuery.Double.Basic

/-! Decimals and the doubles nearest to them. -/
namespace PathQuery

/-- The number `digits * 10^exponent`. -/
structure Decimal where
  digits : Nat
  exponent : Int
  deriving DecidableEq

namespace Double

/-- The double nearest to a decimal, ties to even. Beyond `10^400` and below `10^-400` the answer is
known without computing the power: `digits` lies below `10^(log2 digits + 1)`. -/
def ofDecimal (negative : Bool) (d : Decimal) : Double :=
  if d.digits = 0 then round negative 0 1
  else if 400 < d.exponent then .infinite negative
  else if d.exponent + (d.digits.log2 + 1 : Nat) < -400 then round negative 0 1
  else
    round negative (d.digits * one * Nat.pow 10 d.exponent.toNat)
      (Nat.pow 10 (-d.exponent).toNat)

/-- On whole numbers reading a decimal is rounding the integer. -/
theorem ofDecimal_nat (negative : Bool) (n : Nat) :
    ofDecimal negative ⟨n, 0⟩ = round negative (n * one) 1 := by
  unfold ofDecimal
  by_cases h : n = 0
  · simp [h]
  · simp [h]
    omega

end Double
end PathQuery
