import PathQuery.Proofs.Execution.Shape
import PathQuery.Proofs.Expr.Storage

/-! Conversions as steps.
A converted value is one that its conversion leaves alone: a stored number comes back as it is stored,
a whole one also when its fraction is dropped. So a conversion twice is the conversion once, except
where a value is no number to the strict reading: it becomes null, which this reading takes for zero. -/
namespace PathQuery

/-! ## Numbers that are stored again -/

namespace Number

variable {d : Double} {x : FiniteDouble} {n : Number}

/-- What is stored as an integer is exact as a double. -/
theorem natAbs_toInt_le (h : x.whole < 9000000000000000) :
    x.toInt.natAbs ≤ 9007199254740992 := by
  rw [x.natAbs_toInt]
  omega

/-- A finite double is stored as a number with the same whole part. -/
theorem exists_toDouble (h : Stores (.finite x) n) :
    ∃ y, n.toDouble = .finite y ∧ y.toInt = x.toInt := by
  cases h with
  | int hwhole hsmall =>
    exact ⟨_, Double.ofInt_eq (natAbs_toInt_le hsmall), FiniteDouble.toInt_natAbs _⟩
  | float h => exact ⟨x, rfl, rfl⟩

/-- A finite double is always stored. -/
theorem exists_ofDouble? (x : FiniteDouble) : ∃ n, ofDouble? (.finite x) = some n := by
  rw [ofDouble?]
  split
  · exact ⟨_, rfl⟩
  · exact ⟨_, rfl⟩

/-- The stored form of a stored number is the same. -/
theorem stores_toDouble (h : Stores d n) : Stores n.toDouble n := by
  cases h with
  | @int x hwhole hsmall =>
    have habs : x.toInt.natAbs < 9000000000000000 := by rwa [x.natAbs_toInt]
    exact ofDouble?_eq_some_iff.mp (ofDouble?_ofInt habs)
  | float h => exact .float h

theorem isIntegral_toDouble (h : Stores d n) (hd : d.isIntegral = true) :
    n.toDouble.isIntegral = true := by
  cases h with
  | int hwhole hsmall => exact Double.isIntegral_ofInt (natAbs_toInt_le hsmall)
  | float h => exact hd

end Number

/-- What is left of a finite double without its fraction is whole. -/
theorem Double.trunc_finite (x : FiniteDouble) :
    trunc (.finite x) = .finite ⟨x.negative, x.whole * one, x.representable_whole⟩ :=
  round_of_representable x.negative x.representable_whole

theorem Double.isIntegral_trunc {d : Double} {n : Number} (h : Number.Stores d.trunc n) :
    d.trunc.isIntegral = true := by
  cases d with
  | nan => cases h
  | infinite negative => cases h
  | finite x =>
    rw [trunc_finite, isIntegral, FiniteDouble.isIntegral, Nat.mul_mod_left]
    rfl

/-! ## Converted values -/

namespace Coercion

variable {c : Coercion} {v w : Json}

/-- What a conversion to a number gives is a stored number. -/
theorem convert_eq_some (hc : c ≠ .string) (h : c.convert v = some w) :
    ∃ n, w = .number n ∧ ∃ d, c.computed? v = some d ∧ Number.Stores d n := by
  have hnumber : ∃ n, w = .number n := by
    cases c with
    | string => exact absurd rfl hc
    | _ =>
      obtain ⟨d, -, hd⟩ := Option.bind_eq_some_iff.mp h
      obtain ⟨n, -, rfl⟩ := Option.map_eq_some_iff.mp hd
      exact ⟨n, rfl⟩
  obtain ⟨n, rfl⟩ := hnumber
  exact ⟨n, rfl, convert_eq_number_iff.mp h⟩

theorem computed?_number (hc : c ≠ .string) {n : Number}
    (h : c = .int → n.toDouble.isIntegral = true) : c.computed? (.number n) = some n.toDouble := by
  cases c with
  | string => exact absurd rfl hc
  | number => rfl
  | float => rfl
  | int =>
    rw [computed?, Json.leadingNumber?, Option.map_some, Double.trunc_of_isIntegral (h rfl)]

/-- A converted value is left alone by its conversion. -/
theorem convert_convert (h : c.convert v = some w) : c.convert w = some w := by
  by_cases hc : c = .string
  · subst hc
    cases h
    rfl
  · obtain ⟨n, rfl, d, hd, hstores⟩ := convert_eq_some hc h
    have hwhole : c = .int → n.toDouble.isIntegral = true := by
      rintro rfl
      obtain ⟨d, -, rfl⟩ := Option.map_eq_some_iff.mp hd
      exact Number.isIntegral_toDouble hstores (Double.isIntegral_trunc hstores)
    exact convert_eq_number_iff.mpr
      ⟨n.toDouble, computed?_number hc hwhole, Number.stores_toDouble hstores⟩

theorem apply_of_convert (h : c.convert v = some w) : c.apply v = w := by
  rw [apply, h, Option.getD_some]

/-- Converting twice is converting once, unless the value is no number where one is strictly asked
for. -/
theorem apply_apply_iff :
    c.apply (c.apply v) = c.apply v ↔ (c = .number → (c.convert v).isSome = true) := by
  cases hv : c.convert v with
  | some w =>
    rw [apply_of_convert hv, apply_of_convert (convert_convert hv)]
    simp
  | none =>
    have hnull : c.apply v = .null := by rw [apply, hv, Option.getD_none]
    rw [hnull]
    cases c with
    | string => cases hv
    | number =>
      have hzero : number.apply .null = .number (.int 0) :=
        apply_of_convert (congrArg (Option.map Json.number) (Number.ofDouble?_ofInt (by decide)))
      simp [hzero]
    | _ => exact ⟨fun _ => nofun, fun _ => rfl⟩

end Coercion

namespace Step

variable {c : Coercion} {root : Json} {p : Progress}

theorem run_coerce (c : Coercion) (root : Json) (p : Progress) :
    run root [coerce c] p = ⟨p.found.map c.apply, p.shape⟩ := rfl

theorem run_coerce_coerce_iff : run root [coerce c, coerce c] p = run root [coerce c] p ↔
    (c = .number → ∀ v ∈ p.found, (c.convert v).isSome = true) := by
  have htwice : run root [coerce c, coerce c] p = ⟨(p.found.map c.apply).map c.apply, p.shape⟩ :=
    rfl
  rw [htwice, run_coerce, Progress.mk.injEq, List.map_map, List.map_inj_left]
  simp only [and_true, Function.comp_apply, Coercion.apply_apply_iff]
  exact ⟨fun h hc v hv => h v hv hc, fun h v hv hc => h hc v hv⟩

/-- Where no value is an array, a map of a conversion is the conversion. -/
theorem run_map_coerce (h : ∀ v ∈ p.found, v.isArray = false) :
    run root [map (.coerce c .current)] p = run root [coerce c] p := by
  have harray : p.found.any Json.isArray = false := by simpa using h
  have hmap : run root [map (.coerce c .current)] p =
      ⟨(p.found.flatMap Json.candidates).map c.apply,
        if p.found.any Json.isArray then .sequence else p.shape⟩ := rfl
  rw [hmap, flatMap_candidates harray, harray]
  rfl

/-- A converted value is left alone by its conversion, so that a conversion twice changes nothing,
for the strict reading as a number just where each value has one. Where no value is an array, a
conversion does as a step what it does inside a map. -/
theorem conversions_settle (c : Coercion) (root : Json) :
    (∀ v w, c.convert v = some w → c.convert w = some w) ∧
    (∀ p : Progress, run root [coerce c, coerce c] p = run root [coerce c] p ↔
      (c = .number → ∀ v ∈ p.found, (c.convert v).isSome = true)) ∧
    ∀ p : Progress, (∀ v ∈ p.found, v.isArray = false) →
      run root [coerce c] p = run root [map (.coerce c .current)] p :=
  ⟨fun _ _ => Coercion.convert_convert, fun _ => run_coerce_coerce_iff,
    fun _ h => (run_map_coerce h).symm⟩

/-- A text between blanks is read strictly, and one that is no number leniently. -/
theorem conversions_settle_sample :
    (Coercion.number.convert (.string " 12.0 ") = some (.number (.int 12)) ∧
      Coercion.number.convert (.number (.int 12)) = some (.number (.int 12))) ∧
    run .null [coerce .number, coerce .number] ⟨[.string " 12.0 "], .sequence⟩ =
      run .null [coerce .number] ⟨[.string " 12.0 "], .sequence⟩ ∧
    run .null [coerce .float, coerce .float] ⟨[.string "kg"], .single⟩ =
      run .null [coerce .float] ⟨[.string "kg"], .single⟩ ∧
    ((Json.string "kg").isArray = false ∧
      run .null [coerce .float] ⟨[.string "kg"], .single⟩ =
        run .null [map (.coerce .float .current)] ⟨[.string "kg"], .single⟩) := by
  obtain ⟨hsettled, hstrict, -⟩ := conversions_settle .number .null
  obtain ⟨-, hlenient, hmap⟩ := conversions_settle .float .null
  have hread : Coercion.number.computed? (.string " 12.0 ") = some (.ofInt 12) := by decide +kernel
  have hstored : Number.Stores (.ofInt 12) (.int 12) :=
    Number.ofDouble?_eq_some_iff.mp (Number.ofDouble?_ofInt (by decide))
  have hconvert : Coercion.number.convert (.string " 12.0 ") = some (.number (.int 12)) :=
    Coercion.convert_eq_number_iff.mpr ⟨_, hread, hstored⟩
  exact ⟨⟨hconvert, hsettled _ _ hconvert⟩, (hstrict _).mpr fun _ => by simp [hconvert],
    (hlenient _).mpr nofun, rfl, hmap _ (by simp [Json.isArray])⟩

end Step
end PathQuery
