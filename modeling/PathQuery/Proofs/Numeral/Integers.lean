import PathQuery.Proofs.Access.Index
import PathQuery.Proofs.Double.Comparison
import PathQuery.Proofs.Double.Nearest
import PathQuery.Proofs.Numeral.Reading

/-! Integers as texts and back.
The text of an integer is a numeral without blanks around it, so that all readings of texts agree on it,
and the number that is read is the double nearest to the integer. This is what an integer is compared
by, and below `9e15` in magnitude it is stored as the integer again. -/
namespace PathQuery

theorem Text.trim_of_not_blank {cs : List Char} (h : ∀ c ∈ cs, isBlank c = false) :
    trimStart cs = cs ∧ trim cs = cs := by
  have hkept : ∀ ds : List Char, (∀ d ∈ ds, isBlank d = false) → ds.dropWhile isBlank = ds := by
    intro ds hds
    cases ds with
    | nil => rfl
    | cons d ds =>
      have hd : ¬ isBlank d = true := by simp [hds d List.mem_cons_self]
      exact List.dropWhile_cons_of_neg hd
  have hreverse : ∀ c ∈ cs.reverse, isBlank c = false := fun c hc => h c (List.mem_reverse.mp hc)
  have hstart : trimStart cs = cs := hkept cs h
  exact ⟨hstart, by rw [trim, hstart, trimEnd, hkept _ hreverse, List.reverse_reverse]⟩

namespace Numeral

/-- The numeral of an integer: a sign if it is negative, and digits. -/
def ofInt (i : Int) : Numeral := ⟨i < 0, Nat.toDigits 10 i.natAbs, [], 0⟩

theorem written_intText (i : Int) : Written (Json.intText i).toList (ofInt i) := by
  have hsign : WrittenSign (if i < 0 then ['-'] else []) (decide (i < 0)) := by
    by_cases hneg : i < 0
    · rw [if_pos hneg, decide_eq_true hneg]
      exact .minus
    · rw [if_neg hneg, decide_eq_false hneg]
      exact .none
  have hdigits : WrittenMantissa (Nat.toDigits 10 i.natAbs) (Nat.toDigits 10 i.natAbs) [] :=
    .digits Nat.toDigits_ne_nil fun c hc =>
      Nat.isDigit_of_mem_toDigits (by decide) (by decide) hc
  have hwritten := Written.numeral hsign hdigits .none
  rwa [List.append_nil, ← Json.toList_intText] at hwritten

/-- Reading the numeral of an integer is rounding the integer. -/
theorem toDouble_ofInt (i : Int) : (ofInt i).toDouble = .ofInt i := by
  have hvalue : (ofInt i).decimal = ⟨i.natAbs, 0⟩ := by
    rw [decimal, digitsValue, ofInt, List.append_nil, Nat.ofDigitChars_ten_toDigits]
    rfl
  rw [toDouble, hvalue, Double.ofDecimal_nat]
  rfl

end Numeral

namespace Json

variable {i : Int}

theorem toNumber?_intText (i : Int) : toNumber? (.string (intText i)) = some (.ofInt i) := by
  have hwritten := Numeral.written_intText i
  have htrim : Text.trim (intText i).toList = (intText i).toList :=
    (Text.trim_of_not_blank hwritten.not_isBlank).2
  have hne : (intText i).toList ≠ [] := by
    rw [toList_intText]
    exact List.append_ne_nil_of_right_ne_nil _ Nat.toDigits_ne_nil
  rw [toNumber?, numberOfText?, htrim, Numeral.ofChars?_eq_some_iff.mpr hwritten, Option.map_some,
    Numeral.toDouble_ofInt]
  simp [hne]

theorem leadingNumber?_intText (i : Int) :
    leadingNumber? (.string (intText i)) = some (.ofInt i) := by
  have hwritten := Numeral.written_intText i
  have htrim : Text.trimStart (intText i).toList = (intText i).toList :=
    (Text.trim_of_not_blank hwritten.not_isBlank).1
  rw [leadingNumber?, htrim, Numeral.read?_of_written hwritten, Option.map_some,
    Numeral.toDouble_ofInt]

end Json

/-- The stored form of a double has its value. -/
theorem Number.toDouble_eq_of_stores {d : Double} {n : Number} (h : Stores d n) :
    n.toDouble.eq d = true := by
  cases h with
  | @int x hwhole hsmall =>
    have hkey : (Double.ofInt x.toInt).key? = some x.signed := by
      rw [Double.key?_ofInt, Double.unitsOfInt_eq (natAbs_toInt_le hsmall),
        FiniteDouble.toInt_mul_one hwhole]
    exact Double.eq_iff_key?.mpr ⟨x.signed, hkey, rfl⟩
  | float h => exact Double.eq_self nofun

namespace Coercion

variable {c : Coercion} {i : Int}

/-- All readings take the text of an integer for the double nearest to it. -/
theorem computed?_intText (hc : c ∈ [number, float, int]) (hi : i.natAbs ≤ 18446744073709551616) :
    c.computed? (.string (Json.intText i)) = some (.ofInt i) := by
  simp only [List.mem_cons, List.not_mem_nil, or_false] at hc
  rcases hc with rfl | rfl | rfl
  · rw [computed?, Json.toNumber?_intText]
  · rw [computed?, Json.leadingNumber?_intText]
  · obtain ⟨x, hx, hwhole, -⟩ := Double.exists_ofInt hi
    have hintegral : (Double.ofInt i).isIntegral = true := by rw [hx]; exact hwhole
    rw [computed?, Json.leadingNumber?_intText, Option.map_some,
      Double.trunc_of_isIntegral hintegral]

/-- An integer of 64 bits, with or without a sign, is converted to the text of its digits. The number
that comes back from the text is strictly equal to the integer, and below `9e15` in magnitude it is the
same stored integer. -/
theorem integers_through_texts {c : Coercion} (hc : c ∈ [number, float, int]) {i : Int}
    (hi : i.natAbs ≤ 18446744073709551616) :
    string.convert (.number (.int i)) = some (.string (Json.intText i)) ∧
    ∃ n, (string.convert (.number (.int i))).bind c.convert = some (.number n) ∧
      (Json.number n).strictEq (.number (.int i)) = true ∧
      (i.natAbs < 9000000000000000 → n = .int i) := by
  obtain ⟨x, hx, -, -⟩ := Double.exists_ofInt hi
  obtain ⟨n, hn⟩ := Number.exists_ofDouble? x
  rw [← hx] at hn
  have hstores : Number.Stores (.ofInt i) n := Number.ofDouble?_eq_some_iff.mp hn
  have htext : string.convert (.number (.int i)) = some (.string (Json.intText i)) := rfl
  refine ⟨htext, n, ?_, Number.toDouble_eq_of_stores hstores, fun hsmall => ?_⟩
  · rw [htext]
    exact convert_eq_number_iff.mpr ⟨_, computed?_intText hc hi, hstores⟩
  · rw [Number.ofDouble?_ofInt hsmall] at hn
    exact (Option.some.inj hn).symm

/-- The least integer of 64 bits comes back as a float, and the last one below `9e15` as it was; on the
way they are the texts of their digits. -/
theorem integers_through_texts_sample :
    int ∈ [number, float, int] ∧
    ((-9223372036854775808 : Int).natAbs ≤ 18446744073709551616 ∧
      string.convert (.number (.int (-9223372036854775808))) =
        some (.string "-9223372036854775808") ∧
      ∃ n, (string.convert (.number (.int (-9223372036854775808)))).bind int.convert =
        some (.number n) ∧
        (Json.number n).strictEq (.number (.int (-9223372036854775808))) = true) ∧
    ((8999999999999999 : Int).natAbs < 9000000000000000 ∧
      string.convert (.number (.int 8999999999999999)) = some (.string "8999999999999999") ∧
      int.convert (.string "8999999999999999") = some (.number (.int 8999999999999999))) := by
  have hc : int ∈ [number, float, int] := by simp
  have hleast : (-9223372036854775808 : Int).natAbs ≤ 18446744073709551616 := by decide
  have hsmall : (8999999999999999 : Int).natAbs < 9000000000000000 := by decide
  have hleastText : Json.intText (-9223372036854775808) = "-9223372036854775808" := by decide
  have hsmallText : Json.intText 8999999999999999 = "8999999999999999" := by decide
  obtain ⟨htext, n, hn, hequal, -⟩ := integers_through_texts hc hleast
  obtain ⟨htext', m, hm, -, hsame⟩ :=
    integers_through_texts hc (Nat.le_of_lt (hsmall.trans (by decide)))
  rw [hleastText] at htext
  rw [hsmallText] at htext'
  rw [hsame hsmall, htext'] at hm
  exact ⟨hc, ⟨hleast, htext, n, hn, hequal⟩, hsmall, htext', hm⟩

end Coercion
end PathQuery
