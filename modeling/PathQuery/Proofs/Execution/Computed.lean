import PathQuery.Proofs.Access.Reference
import PathQuery.Proofs.Double.Nearest
import PathQuery.Proofs.Execution.Conversion
import PathQuery.Proofs.Execution.Slicing

/-! Indices that are computed.
The value of an expression is a stored number before it is an index, and its double is cast to 64 bits
only then. A literal comes to the same index as if it were written, and the length of an array less a
number to the element that this number counts from the end. A difference that is no double is rounded
to a place that the array does not have either. -/
namespace PathQuery

/-! ## Stored doubles as indices -/

namespace Outcome

variable {x : FiniteDouble}

/-- How a whole double is stored makes no difference to the index that it denotes. -/
theorem index?_ofDouble? (h : x.isIntegral = true) :
    index? (Json.ofDouble? (.finite x)) = some (Double.finite x).toInt64 := by
  obtain ⟨n, hn⟩ := Number.exists_ofDouble? x
  have hstores : Number.Stores (.finite x) n := Number.ofDouble?_eq_some_iff.mp hn
  obtain ⟨y, hy, hint⟩ := Number.exists_toDouble hstores
  have hwhole : n.toDouble.isIntegral = true := Number.isIntegral_toDouble hstores h
  rw [Json.ofDouble?, hn, Option.map_some, index?, hwhole, if_pos rfl, hy, Double.toInt64,
    Double.toInt64, hint]

end Outcome

/-! ## Differences of integers -/

namespace FiniteDouble

theorem signed_neg (x : FiniteDouble) : x.neg.signed = -x.signed := by
  rw [signed, signed, neg]
  cases x.negative <;> simp

theorem signed_natAbs {i : Int} (h : Representable (i.natAbs * Double.one)) :
    (⟨i < 0, i.natAbs * Double.one, h⟩ : FiniteDouble).signed = i * Double.one := by
  rw [signed, Int.natCast_mul]
  by_cases hneg : i < 0
  · rw [if_pos (decide_eq_true hneg), Int.ofNat_natAbs_of_nonpos hneg.le, Int.neg_mul, Int.neg_neg]
  · rw [if_neg (by simpa using hneg), Int.natAbs_of_nonneg (Int.not_lt.mp hneg)]

end FiniteDouble

namespace Double

variable {i j : Int}

/-- The difference of two integers that are doubles is rounded once. -/
theorem sub_ofInt (hi : 0 ≤ i) (hi' : i.natAbs ≤ 9007199254740992)
    (hj : j.natAbs ≤ 9007199254740992) : (ofInt i).sub (ofInt j) = ofInt (i - j) := by
  have hone : (0 : Int) < one := Int.natCast_pos.mpr one_pos
  have hsum : i * one + -(j * one) = (i - j) * one := by
    rw [Int.sub_mul, Int.sub_eq_add_neg]
  have hnegative : (i - j) * one < 0 ↔ i - j < 0 := by
    constructor
    · intro hprod
      by_contra hge
      exact absurd hprod (Int.not_lt.mpr (Int.mul_nonneg (Int.not_lt.mp hge) hone.le))
    · exact fun hlt => Int.mul_neg_of_neg_of_pos hlt hone
  have habs : ((i - j) * one : Int).natAbs = (i - j).natAbs * one := by
    rw [Int.natAbs_mul, Int.natAbs_natCast]
  rw [ofInt_eq hi', ofInt_eq hj, sub, neg, add, FiniteDouble.signed_neg,
    FiniteDouble.signed_natAbs, FiniteDouble.signed_natAbs, hsum, habs, ofInt]
  simp [hnegative, hi.not_gt]

/-- Rounding and the cast to 64 bits keep the order of integers. -/
theorem toInt64_ofInt_mono (h : i ≤ j) (hi : i.natAbs ≤ 18446744073709551616)
    (hj : j.natAbs ≤ 18446744073709551616) : (ofInt i).toInt64 ≤ (ofInt j).toInt64 := by
  obtain ⟨x, hx, hxwhole, hxunits⟩ := exists_ofInt hi
  obtain ⟨y, hy, hywhole, hyunits⟩ := exists_ofInt hj
  have hone : (0 : Int) < one := Int.natCast_pos.mpr one_pos
  have hle : x.toInt ≤ y.toInt := by
    refine Int.le_of_mul_le_mul_right ?_ hone
    rw [FiniteDouble.toInt_mul_one hxwhole, FiniteDouble.toInt_mul_one hywhole, hxunits, hyunits]
    exact unitsOfInt_mono h
  rw [hx, hy, toInt64, toInt64]
  omega

end Double

/-! ## From the end of an array -/

/-- The expression `@.length - k`. -/
def Expr.fromEnd (k : Int) : Expr :=
  .binary .sub (.property .current "length") (.literal (.number (.ofInt k)))

section
variable {items : List Json} {k : Int} {root : Json}

theorem Expr.index?_fromEnd (hlength : items.length < 9007199254740992)
    (hk : k.natAbs < 9000000000000000) :
    ((fromEnd k).eval (.array items) root).index? =
      some (Double.ofInt (items.length - k)).toInt64 := by
  have hsub : (Double.ofInt items.length).sub (.ofInt k) = .ofInt (items.length - k) :=
    Double.sub_ofInt (by omega) (by omega) (by omega)
  have heval : (fromEnd k).eval (.array items) root =
      Json.ofDouble? (.ofInt (items.length - k)) := by
    have hproperty : (property .current "length").eval (.array items) root =
        some (.number (.int items.length)) := rfl
    rw [fromEnd, eval, eval_number hk, hproperty, BinaryOp.apply, Outcome.numeric_eq,
      Option.bind_some, Option.bind_some, Json.toNumber?, Json.toNumber?, Option.bind_some,
      Option.map_some, Option.bind_some, Number.toDouble, Number.toDouble, hsub]
  obtain ⟨x, hx, hwhole, -⟩ := Double.exists_ofInt (i := items.length - k) (by omega)
  rw [heval, hx, Outcome.index?_ofDouble? hwhole]

namespace Step

/-- Where an expression comes to the same index for every value found, it is this index as a step. -/
theorem select_computed_eq_select_index {e : Expr} {i : Int} {found : List Json}
    (h : ∀ v ∈ found, (e.eval v root).index? = some i) :
    (computed e).select root found = (index i).select root found := by
  rw [select, select]
  refine List.filterMap_congr fun v hv => ?_
  rw [h v hv, Option.bind_some]

theorem select_fromEnd (hlength : items.length < 9007199254740992)
    (hk : k.natAbs < 9000000000000000) :
    (computed (.fromEnd k)).select root [.array items] =
      (index (Double.ofInt (items.length - k)).toInt64).select root [.array items] :=
  select_computed_eq_select_index
    (List.forall_mem_singleton.mpr (Expr.index?_fromEnd hlength hk))

theorem select_fromEnd_of_mem (hlength : items.length < 9007199254740992)
    (hk : k.natAbs < 9000000000000000) {j : Nat} (hj : j < items.length)
    (heq : (j : Int) = items.length - k) :
    (computed (.fromEnd k)).select root [.array items] = [items[j]] := by
  rw [select_fromEnd hlength hk, ← heq, Double.toInt64_ofInt (by omega), select_index,
    List.getElem?_eq_getElem hj, Option.toList_some]

/-- A difference outside of the array stays outside when it is rounded. -/
theorem select_fromEnd_of_not_mem (hlength : items.length < 9007199254740992)
    (hk : k.natAbs < 9000000000000000)
    (hout : ¬ (0 ≤ items.length - k ∧ items.length - k < items.length)) :
    (computed (.fromEnd k)).select root [.array items] = [] := by
  have helement : (Json.array items).element (Double.ofInt (items.length - k)).toInt64 = none := by
    rw [Json.element]
    by_cases hneg : items.length - k < 0
    · have hlast : (Double.ofInt (-1)).toInt64 = -1 := Double.toInt64_ofInt (by decide)
      have hle := Double.toInt64_ofInt_mono (i := items.length - k) (j := -1)
        (by omega) (by omega) (by omega)
      rw [if_pos (by omega)]
    · have hend : (Double.ofInt items.length).toInt64 = items.length :=
        Double.toInt64_ofInt (by omega)
      have hle := Double.toInt64_ofInt_mono (i := items.length) (j := items.length - k)
        (by omega) (by omega) (by omega)
      rw [if_neg (by omega), List.getElem?_eq_none (by omega)]
  rw [select_fromEnd hlength hk, select, List.filterMap_cons, helement, List.filterMap_nil]

theorem head?_select_slice {j : Nat} (hk : 1 ≤ k) (heq : (j : Int) = items.length - k) :
    ((slice (some (-k)) none).select root [.array items]).head? = items[j]? := by
  have hbound : Json.bound items.length (-k) = j := by
    rw [Json.bound]
    omega
  rw [select, List.flatMap_singleton, Json.slice]
  simp only [Option.map_some, Option.getD_some, Option.map_none, Option.getD_none, hbound,
    List.take_length, List.head?_drop]

end Step
end

namespace Step

/-- A whole number as an expression does what the same number, cast to 64 bits, does as an index. The
length of an array less a number is the index of the element that lies there, if one does, and nothing
is found otherwise; so it leads to the first element of the slice that begins as far from the end. -/
theorem computed_indices (root : Json) :
    (∀ x : FiniteDouble, x.isIntegral = true → ∀ p : Progress,
      advance root p (computed (.literal (.number (.finite x)))) =
        advance root p (index (Double.finite x).toInt64)) ∧
    ∀ (items : List Json) (k : Int), items.length < 9007199254740992 →
      k.natAbs < 9000000000000000 →
      (∀ j : Nat, ∀ hj : j < items.length, (j : Int) = items.length - k →
        (computed (.fromEnd k)).select root [.array items] = [items[j]]) ∧
      (¬ (0 ≤ items.length - k ∧ items.length - k < items.length) →
        (computed (.fromEnd k)).select root [.array items] = []) ∧
      (1 ≤ k → k ≤ items.length → ∃ v,
        (computed (.fromEnd k)).select root [.array items] = [v] ∧
        ((slice (some (-k)) none).select root [.array items]).head? = some v) := by
  refine ⟨fun x hx p => ?_, fun items k hlength hk => ⟨?_, ?_, fun hlow hhigh => ?_⟩⟩
  · have hindex : ∀ v, ((Expr.literal (.number (.finite x))).eval v root).index? =
        some (Double.finite x).toInt64 := by
      intro v
      obtain ⟨n, hn⟩ := Number.exists_ofDouble? x
      have hvalue : (Expr.literal (.number (.finite x))).eval v root =
          Json.ofDouble? (.finite x) := by
        rw [Expr.eval, Literal.value, Json.ofDouble?, hn]
        rfl
      rw [hvalue, Outcome.index?_ofDouble? hx]
    rw [advance, advance, select_computed_eq_select_index fun v _ => hindex v]
    rfl
  · exact fun j hj heq => select_fromEnd_of_mem hlength hk hj heq
  · exact fun hout => select_fromEnd_of_not_mem hlength hk hout
  · obtain ⟨j, hj⟩ := Int.eq_ofNat_of_zero_le (Int.sub_nonneg.mpr hhigh)
    have hlt : j < items.length := by omega
    refine ⟨items[j], select_fromEnd_of_mem hlength hk hlt hj.symm, ?_⟩
    rw [head?_select_slice hlow hj.symm, List.getElem?_eq_getElem hlt]

/-- The last of three elements, a place far behind them, and an index that is stored as a float. -/
theorem computed_indices_sample :
    let items : List Json := [.null, .bool true, .string "c"]
    (FiniteDouble.twoPow53.isIntegral = true ∧ ∀ p : Progress,
      advance .null p (computed (.literal (.number (.finite .twoPow53)))) =
        advance .null p (index (Double.finite .twoPow53).toInt64)) ∧
    (items.length < 9007199254740992 ∧ (1 : Int).natAbs < 9000000000000000 ∧
      (2 < items.length ∧ ((2 : Nat) : Int) = items.length - 1 ∧
        (computed (.fromEnd 1)).select .null [.array items] = [.string "c"]) ∧
      1 ≤ (1 : Int) ∧ (1 : Int) ≤ items.length ∧ ∃ v,
        (computed (.fromEnd 1)).select .null [.array items] = [v] ∧
        ((slice (some (-1)) none).select .null [.array items]).head? = some v) ∧
    ((-8999999999999999 : Int).natAbs < 9000000000000000 ∧
      ¬ (0 ≤ items.length - (-8999999999999999 : Int) ∧
        items.length - (-8999999999999999 : Int) < items.length) ∧
      (computed (.fromEnd (-8999999999999999))).select .null [.array items] = []) := by
  intro items
  obtain ⟨hliteral, hlength⟩ := computed_indices .null
  have hitems : items.length < 9007199254740992 := by decide
  have hlast : (2 : Nat) < items.length := by decide
  have hout : ¬ (0 ≤ items.length - (-8999999999999999 : Int) ∧
      items.length - (-8999999999999999 : Int) < items.length) := by decide
  obtain ⟨hmem, -, hslice⟩ := hlength items 1 hitems (by decide)
  obtain ⟨-, hnone, -⟩ := hlength items (-8999999999999999) hitems (by decide)
  exact ⟨⟨FiniteDouble.isIntegral_twoPow53, hliteral _ FiniteDouble.isIntegral_twoPow53⟩,
    ⟨hitems, by decide, ⟨hlast, rfl, hmem 2 hlast rfl⟩, by decide, by decide,
      hslice (by decide) (by decide)⟩, by decide, hout, hnone hout⟩

end Step
end PathQuery
