import PathQuery.Proofs.Execution.Conversion
import PathQuery.Proofs.Numeral.Written

/-! Texts read as numbers.
The strict reading takes a text as a whole, without the blanks around it, and the lenient one the longest
numeral that it starts with. A numeral holds no blank, so where the strict reading finds a numeral the
lenient one stops behind the same. -/
namespace PathQuery

/-! ## Blanks around a text -/

namespace Text

variable {cs : List Char}

theorem trimEnd_eq_nil_iff : trimEnd cs = [] ↔ ∀ c ∈ cs, isBlank c = true := by
  rw [trimEnd, List.reverse_eq_nil_iff, List.dropWhile_eq_nil_iff]
  simp only [List.mem_reverse]

theorem exists_trimEnd (cs : List Char) :
    ∃ gap, cs = trimEnd cs ++ gap ∧ ∀ c ∈ gap, isBlank c = true := by
  refine ⟨(cs.reverse.takeWhile isBlank).reverse, ?_, fun c hc => ?_⟩
  · rw [trimEnd, ← List.reverse_append, List.takeWhile_append_dropWhile, List.reverse_reverse]
  · exact List.all_eq_true.mp List.all_takeWhile c (List.mem_reverse.mp hc)

/-- Nothing is left of a text that is blank, and of no other. -/
theorem trim_eq_nil_iff : trim cs = [] ↔ ∀ c ∈ cs, isBlank c = true := by
  rw [trim, trimEnd_eq_nil_iff, trimStart]
  constructor
  · intro h c hc
    rw [← List.takeWhile_append_dropWhile (p := isBlank) (l := cs)] at hc
    rcases List.mem_append.mp hc with hc | hc
    · exact List.all_eq_true.mp List.all_takeWhile c hc
    · exact h c hc
  · exact fun h c hc => h c ((List.dropWhile_sublist _).mem hc)

end Text

namespace Numeral

variable {cs digits : List Char} {n : Numeral}

theorem not_isBlank_digits (h : ∀ c ∈ digits, c.isDigit = true) :
    ∀ c ∈ digits, Text.isBlank c = false :=
  fun c hc => Token.isBlank_of_isDigit (h c hc)

theorem WrittenSign.not_isBlank {negative : Bool} (h : WrittenSign cs negative) :
    ∀ c ∈ cs, Text.isBlank c = false := by
  cases h with
  | none => exact List.forall_mem_nil _
  | plus => exact List.forall_mem_singleton.mpr rfl
  | minus => exact List.forall_mem_singleton.mpr rfl

/-- No character of a numeral is blank. -/
theorem Written.not_isBlank (h : Written cs n) : ∀ c ∈ cs, Text.isBlank c = false := by
  cases h with
  | @numeral sign mantissa power whole fraction negative exponent hsign hmantissa hpower =>
    have hm : ∀ c ∈ mantissa, Text.isBlank c = false := by
      cases hmantissa with
      | digits _ hwhole => exact not_isBlank_digits hwhole
      | pointed _ hwhole hfraction =>
        exact List.forall_mem_append.mpr ⟨not_isBlank_digits hwhole,
          List.forall_mem_cons.mpr ⟨by decide, not_isBlank_digits hfraction⟩⟩
    have hp : ∀ c ∈ power, Text.isBlank c = false := by
      cases hpower with
      | none => simp
      | some he hsign _ hdigits =>
        refine List.forall_mem_cons.mpr ⟨?_, List.forall_mem_append.mpr
          ⟨hsign.not_isBlank, not_isBlank_digits hdigits⟩⟩
        rcases he with rfl | rfl <;> decide
    exact List.forall_mem_append.mpr ⟨hsign.not_isBlank, List.forall_mem_append.mpr ⟨hm, hp⟩⟩

/-- In front of blanks a numeral is the longest one. -/
theorem Written.longest {gap : List Char} (h : Written cs n)
    (hgap : ∀ c ∈ gap, Text.isBlank c = true) : Longest (cs ++ gap) cs n := by
  refine ⟨List.prefix_append cs gap, h, fun other m hother hm => ?_⟩
  by_contra hlong
  -- a longer start would reach into the blanks
  have hlt : cs.length < other.length := Nat.lt_of_not_le hlong
  obtain ⟨behind, hbehind⟩ :=
    List.prefix_of_prefix_length_le (List.prefix_append cs gap) hother (Nat.le_of_lt hlt)
  cases behind with
  | nil =>
    rw [List.append_nil] at hbehind
    rw [hbehind] at hlt
    exact Nat.lt_irrefl _ hlt
  | cons c behind =>
    rw [← hbehind, List.prefix_append_right_inj] at hother
    have hblank : Text.isBlank c = true := hgap c (hother.subset List.mem_cons_self)
    have hmem : c ∈ other := by simp [← hbehind]
    rw [hm.not_isBlank c hmem] at hblank
    cases hblank

end Numeral

/-! ## Dropping a fraction -/

namespace Number

/-- A double without its fraction is stored as its whole part is. -/
theorem ofDouble?_trunc (x : FiniteDouble) :
    ofDouble? (Double.trunc (.finite x)) = ofDouble? (.ofInt x.toInt) := by
  let y : FiniteDouble := ⟨x.negative, x.whole * Double.one, x.representable_whole⟩
  have htrunc : Double.trunc (.finite x) = .finite y := Double.trunc_finite x
  have hwhole : y.whole = x.whole := FiniteDouble.whole_mul_one x.representable_whole
  have hint : y.toInt = x.toInt := by rw [FiniteDouble.toInt, FiniteDouble.toInt, hwhole]
  have hintegral : y.isIntegral = true := by
    rw [FiniteDouble.isIntegral, Nat.mul_mod_left]
    rfl
  rw [htrunc, ← hint]
  rcases Nat.lt_or_ge y.whole 9000000000000000 with hsmall | hlarge
  · have habs : y.toInt.natAbs < 9000000000000000 := by rwa [y.natAbs_toInt]
    rw [ofDouble?_ofInt habs, ofDouble?_eq_some_iff]
    exact .int hintegral hsmall
  · rw [Double.ofInt_toInt hintegral (by omega)]

end Number

namespace Coercion

variable {v w : Json}

theorem convert_int_eq {x : FiniteDouble} (h : v.leadingNumber? = some (.finite x)) :
    int.convert v = Json.ofDouble? (.ofInt x.toInt) := by
  rw [convert, h, Option.map_some, Option.bind_some, Json.ofDouble?, Number.ofDouble?_trunc]
  rfl

/-- What is no finite number is none without its fraction either. -/
theorem convert_eq_none (h : ∀ x, v.leadingNumber? ≠ some (.finite x)) :
    float.convert v = none ∧ int.convert v = none := by
  rw [convert, convert]
  cases hd : v.leadingNumber? with
  | none => exact ⟨rfl, rfl⟩
  | some d =>
    cases d with
    | finite x => exact absurd hd (h x)
    | _ => exact ⟨rfl, rfl⟩

/-- A finite number has a whole part, and both are stored. -/
theorem exists_convert {x : FiniteDouble} (h : v.leadingNumber? = some (.finite x)) :
    ∃ n y, float.convert v = some (.number n) ∧ n.toDouble = .finite y ∧
      int.convert v = Json.ofDouble? (.ofInt y.toInt) := by
  obtain ⟨n, hn⟩ := Number.exists_ofDouble? x
  obtain ⟨y, hy, hint⟩ := Number.exists_toDouble (Number.ofDouble?_eq_some_iff.mp hn)
  refine ⟨n, y, ?_, hy, ?_⟩
  · rw [convert, h, Option.bind_some, Json.ofDouble?, hn, Option.map_some]
  · rw [convert_int_eq h, hint]

/-- The whole number that is left of the lenient reading. -/
theorem convert_int_iff : int.convert v = some w ↔ ∃ n x,
    float.convert v = some (.number n) ∧ n.toDouble = .finite x ∧
      Json.ofDouble? (.ofInt x.toInt) = some w := by
  by_cases hfinite : ∃ x, v.leadingNumber? = some (.finite x)
  · obtain ⟨x, hx⟩ := hfinite
    obtain ⟨n, y, hn, hy, hint⟩ := exists_convert hx
    rw [hint, hn]
    constructor
    · exact fun h => ⟨n, y, rfl, hy, h⟩
    · rintro ⟨m, z, hm, hz, h⟩
      obtain rfl : n = m := Json.number.inj (Option.some.inj hm)
      obtain rfl : y = z := Double.finite.inj (hy.symm.trans hz)
      exact h
  · obtain ⟨hfloat, hint⟩ := convert_eq_none fun x hx => hfinite ⟨x, hx⟩
    simp [hfloat, hint]

/-- A whole number is left of each number. -/
theorem isSome_convert_int (v : Json) : (int.convert v).isSome = (float.convert v).isSome := by
  by_cases hfinite : ∃ x, v.leadingNumber? = some (.finite x)
  · obtain ⟨x, hx⟩ := hfinite
    obtain ⟨n, -, hn, -⟩ := exists_convert hx
    obtain ⟨m, hm⟩ :=
      Number.exists_ofDouble? ⟨x.negative, x.whole * Double.one, x.representable_whole⟩
    rw [hn, convert, hx, Option.map_some, Option.bind_some, Double.trunc_finite, Json.ofDouble?, hm]
    rfl
  · obtain ⟨hfloat, hint⟩ := convert_eq_none fun x hx => hfinite ⟨x, hx⟩
    rw [hfloat, hint]

theorem numberOfText?_of_blank {s : String} (h : ∀ c ∈ s.toList, Text.isBlank c = true) :
    Json.numberOfText? s = some (.ofInt 0) := by
  simp [Json.numberOfText?, Text.trim_eq_nil_iff.mpr h]

theorem numberOfText?_eq {s : String} (h : ¬ ∀ c ∈ s.toList, Text.isBlank c = true) :
    Json.numberOfText? s = (Numeral.ofChars? (Text.trim s.toList)).map Numeral.toDouble := by
  have hne : Text.trim s.toList ≠ [] := fun hnil => h (Text.trim_eq_nil_iff.mp hnil)
  simp [Json.numberOfText?, hne]

variable {s : String}

theorem convert_number_of_blank (h : ∀ c ∈ s.toList, Text.isBlank c = true) :
    number.convert (.string s) = some (.ofNat 0) := by
  have hzero : Number.ofDouble? (.ofInt 0) = some (.int 0) := Number.ofDouble?_ofInt (by decide)
  rw [convert, Json.toNumber?, numberOfText?_of_blank h, Option.bind_some, Json.ofDouble?, hzero,
    Option.map_some]
  rfl

theorem convert_number_iff (h : ¬ ∀ c ∈ s.toList, Text.isBlank c = true) :
    number.convert (.string s) = some w ↔
      ∃ n, Numeral.Written (Text.trim s.toList) n ∧ Json.ofDouble? n.toDouble = some w := by
  rw [convert, Json.toNumber?, numberOfText?_eq h, Option.bind_map, Option.bind_eq_some_iff]
  simp only [Numeral.ofChars?_eq_some_iff, Function.comp_apply]

theorem convert_float_iff : float.convert (.string s) = some w ↔
    ∃ lexeme n, Numeral.Longest (Text.trimStart s.toList) lexeme n ∧
      Json.ofDouble? n.toDouble = some w := by
  have hread : Json.leadingNumber? (.string s) =
      ((Numeral.read? (Text.trimStart s.toList)).map Prod.fst).map Numeral.toDouble := by
    rw [Json.leadingNumber?, Option.map_map]
    rfl
  rw [convert, hread, Option.bind_map, Option.bind_eq_some_iff]
  simp only [Numeral.map_read?_eq_some_iff, Function.comp_apply]
  constructor
  · rintro ⟨n, ⟨lexeme, hlongest⟩, hw⟩
    exact ⟨lexeme, n, hlongest, hw⟩
  · rintro ⟨lexeme, n, hlongest, hw⟩
    exact ⟨n, ⟨lexeme, hlongest⟩, hw⟩

/-- Where the strict reading finds a number in a text that is not blank, the lenient one finds the
same. -/
theorem convert_float_of_number (h : ¬ ∀ c ∈ s.toList, Text.isBlank c = true)
    (hw : number.convert (.string s) = some w) : float.convert (.string s) = some w := by
  obtain ⟨n, hn, hvalue⟩ := (convert_number_iff h).mp hw
  obtain ⟨gap, hgap, hblank⟩ := Text.exists_trimEnd (Text.trimStart s.toList)
  have hlongest : Numeral.Longest (Text.trimStart s.toList) (Text.trim s.toList) n := by
    rw [hgap]
    exact hn.longest hblank
  exact convert_float_iff.mpr ⟨_, n, hlongest, hvalue⟩

/-- The readings of a text as a number. The strict one takes a blank text for zero, and any other for
the numeral that it is as a whole, without the blanks around it. The lenient one takes the longest
numeral that the text starts with behind its blanks, and its whole part is the one without a fraction.
A text that is not blank has the same number for both if it has one for the strict one. -/
theorem texts_as_numbers (s : String) :
    ((∀ c ∈ s.toList, Text.isBlank c = true) → number.convert (.string s) = some (.ofNat 0)) ∧
    ((¬ ∀ c ∈ s.toList, Text.isBlank c = true) → ∀ w, number.convert (.string s) = some w ↔
      ∃ n, Numeral.Written (Text.trim s.toList) n ∧ Json.ofDouble? n.toDouble = some w) ∧
    (∀ w, float.convert (.string s) = some w ↔
      ∃ lexeme n, Numeral.Longest (Text.trimStart s.toList) lexeme n ∧
        Json.ofDouble? n.toDouble = some w) ∧
    (int.convert (.string s)).isSome = (float.convert (.string s)).isSome ∧
    (∀ w, int.convert (.string s) = some w ↔ ∃ n x,
      float.convert (.string s) = some (.number n) ∧ n.toDouble = .finite x ∧
        Json.ofDouble? (.ofInt x.toInt) = some w) ∧
    ((¬ ∀ c ∈ s.toList, Text.isBlank c = true) → ∀ w,
      number.convert (.string s) = some w → float.convert (.string s) = some w) :=
  ⟨convert_number_of_blank, fun h _ => convert_number_iff h, fun _ => convert_float_iff,
    isSome_convert_int _, fun _ => convert_int_iff, fun h _ => convert_float_of_number h⟩

/-- Blanks alone, and a numeral between blanks. -/
theorem texts_as_numbers_sample :
    ((∀ c ∈ " \t".toList, Text.isBlank c = true) ∧
      number.convert (.string " \t") = some (.ofNat 0)) ∧
    (¬ ∀ c ∈ " 12.e0\n".toList, Text.isBlank c = true) ∧
    number.convert (.string " 12.e0\n") = some (.number (.int 12)) ∧
    float.convert (.string " 12.e0\n") = some (.number (.int 12)) := by
  have hblank : ∀ c ∈ " \t".toList, Text.isBlank c = true := List.all_eq_true.mp rfl
  have hnumeral : ¬ ∀ c ∈ " 12.e0\n".toList, Text.isBlank c = true :=
    fun h => absurd (h '1' (by simp)) (by decide)
  obtain ⟨hzero, -⟩ := texts_as_numbers " \t"
  obtain ⟨-, hstrict, -, -, -, hsame⟩ := texts_as_numbers " 12.e0\n"
  have hwritten : Numeral.Written (Text.trim " 12.e0\n".toList) ⟨false, ['1', '2'], [], 0⟩ :=
    Numeral.ofChars?_eq_some_iff.mp rfl
  have hvalue : Numeral.toDouble ⟨false, ['1', '2'], [], 0⟩ = .ofInt 12 := by decide +kernel
  have hread : number.convert (.string " 12.e0\n") = some (.number (.int 12)) :=
    (hstrict hnumeral _).mpr ⟨_, hwritten, by
      rw [hvalue, Json.ofDouble?, Number.ofDouble?_ofInt (by decide), Option.map_some]⟩
  exact ⟨⟨hblank, hzero hblank⟩, hnumeral, hread, hsame hnumeral _ hread⟩

end Coercion
end PathQuery
