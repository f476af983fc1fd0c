import PathQuery.Json.Comparison
import PathQuery.Proofs.Json.Equality

/-! Strict and loose equality.
Strict equality is an equivalence, for which the order of the members of an object does not matter.
Loose equality contains it and is the same within a kind; between kinds it only goes by the reading as
a number, so that it is symmetric and keeps null and containers apart from everything else. -/
namespace PathQuery.Json

/-- A value in which no object has a key twice. -/
abbrev WellKeyed := { v : Json // v.distinctKeys = true }

variable {a b c : Json}

/-! ## Strict equality -/

/-- Two values are strictly equal as numbers, or they are no numbers and have the same structure. -/
theorem strictEq_cases (h : a.strictEq b = true) :
    (∃ m n, a = number m ∧ b = number n ∧ m.toDouble.eq n.toDouble = true) ∨
    (a.kind ≠ .number ∧ a.same b = true) := by
  cases a with
  | number m =>
    cases b with
    | number n => exact .inl ⟨m, n, rfl, rfl, h⟩
    | _ => cases h
  | _ => exact .inr ⟨by simp [kind], h⟩

theorem strictEq_of_same (h : a.same b = true) : a.strictEq b = true := by
  cases a with
  | number m =>
    obtain ⟨n, rfl, hmn⟩ := same_number_iff.mp h
    exact Number.toDouble_eq_of_same hmn
  | _ => exact h

theorem kind_eq_of_strictEq (h : a.strictEq b = true) : a.kind = b.kind := by
  rcases strictEq_cases h with ⟨m, n, rfl, rfl, _⟩ | ⟨_, hsame⟩
  · rfl
  · exact kind_eq_of_same hsame

theorem strictEq_symm (ha : a.distinctKeys = true) (h : a.strictEq b = true) :
    b.strictEq a = true := by
  rcases strictEq_cases h with ⟨m, n, rfl, rfl, hmn⟩ | ⟨_, hsame⟩
  · exact Double.eq_symm hmn
  · exact strictEq_of_same (same_symm ha hsame)

theorem strictEq_trans (hab : a.strictEq b = true) (hbc : b.strictEq c = true) :
    a.strictEq c = true := by
  rcases strictEq_cases hab with ⟨l, m, rfl, rfl, hlm⟩ | ⟨hkind, hsame⟩
  · rcases strictEq_cases hbc with ⟨_, n, hm, rfl, hmn⟩ | ⟨hnumber, _⟩
    · cases hm
      exact Double.eq_trans hlm hmn
    · exact absurd rfl hnumber
  · rcases strictEq_cases hbc with ⟨m, n, rfl, rfl, _⟩ | ⟨_, hsame'⟩
    · exact absurd (kind_eq_of_same hsame) hkind
    · exact strictEq_of_same (same_trans hsame hsame')

/-! ## Loose equality -/

theorem numericEq_comm (a b : Json) : a.numericEq b = b.numericEq a := by
  unfold numericEq
  cases a.toNumber? with
  | none => cases b.toNumber? <;> rfl
  | some x =>
    cases b.toNumber? with
    | none => rfl
    | some y => exact Bool.eq_iff_iff.mpr ⟨Double.eq_symm, Double.eq_symm⟩

theorem looseEq_of_kind_eq (h : a.kind = b.kind) : a.looseEq b = a.strictEq b := by
  rw [looseEq, if_pos h]

theorem looseEq_comm_of_kind_ne (h : a.kind ≠ b.kind) : a.looseEq b = b.looseEq a := by
  rw [looseEq, looseEq, if_neg h, if_neg h.symm, Bool.or_comm, numericEq_comm]
  simp only [or_comm]

theorem looseEq_eq_false (h : a.kind ≠ b.kind) (ha : a.isContainer = true ∨ a.kind = .null) :
    a.looseEq b = false := by
  rw [looseEq, if_neg h]
  rcases ha with ha | ha
  · simp [ha]
  · simp [ha]

theorem looseEq_symm (ha : a.distinctKeys = true) (h : a.looseEq b = true) :
    b.looseEq a = true := by
  by_cases hkind : a.kind = b.kind
  · rw [looseEq_of_kind_eq hkind] at h
    rw [looseEq_of_kind_eq hkind.symm]
    exact strictEq_symm ha h
  · rw [← looseEq_comm_of_kind_ne hkind]
    exact h

theorem looseEq_of_strictEq (h : a.strictEq b = true) : a.looseEq b = true := by
  rw [looseEq_of_kind_eq (kind_eq_of_strictEq h)]
  exact h

/-- Strict equality is an equivalence that does not see the order of members at any depth. Loose
equality is reflexive and symmetric, holds wherever strict equality does and is the same within a kind,
and it never holds between an array, an object or null and a value of another kind. -/
theorem equality_laws :
    Equivalence (fun a b : WellKeyed => a.val.strictEq b.val = true) ∧
    (∀ a b : WellKeyed, Relation.ReflTransGen Reordered a.val b.val →
      a.val.strictEq b.val = true) ∧
    (∀ a : WellKeyed, a.val.looseEq a.val = true) ∧
    ∀ a b : WellKeyed, a.val.looseEq b.val = b.val.looseEq a.val ∧
      (a.val.strictEq b.val = true → a.val.looseEq b.val = true) ∧
      (a.val.kind = b.val.kind → a.val.looseEq b.val = a.val.strictEq b.val) ∧
      (a.val.kind ≠ b.val.kind → (a.val.isContainer = true ∨ a.val.kind = .null) →
        a.val.looseEq b.val = false ∧ b.val.looseEq a.val = false) := by
  have hself : ∀ a : WellKeyed, a.val.strictEq a.val = true :=
    fun a => strictEq_of_same (same_self a.property)
  refine ⟨⟨hself, fun {a _} h => strictEq_symm a.property h, strictEq_trans⟩, ?_, ?_, ?_⟩
  · intro a b h
    exact strictEq_of_same (same_of_reordered h a.property)
  · intro a
    exact looseEq_of_strictEq (hself a)
  · intro a b
    have hcomm : a.val.looseEq b.val = b.val.looseEq a.val :=
      Bool.eq_iff_iff.mpr ⟨looseEq_symm a.property, looseEq_symm b.property⟩
    refine ⟨hcomm, looseEq_of_strictEq, looseEq_of_kind_eq, fun hkind ha => ?_⟩
    have hfalse : a.val.looseEq b.val = false := looseEq_eq_false hkind ha
    exact ⟨hfalse, hcomm ▸ hfalse⟩

/-- An object with its members turned around, once more inside an array in it; and an empty array next
to an empty text, both of which are empty as texts. -/
theorem equality_laws_sample :
    let point : Json := .object [("x", .null), ("y", .bool true)]
    let turned : Json := .object [("y", .bool true), ("x", .null)]
    let a : WellKeyed := ⟨.object [("p", .array [point]), ("q", .string "s")], by decide⟩
    let b : WellKeyed := ⟨.object [("q", .string "s"), ("p", .array [turned])], by decide⟩
    Relation.ReflTransGen Reordered a.val b.val ∧ a.val.strictEq b.val = true ∧
    b.val.looseEq a.val = true ∧ (array []).kind ≠ (string "").kind ∧
    (array []).looseEq (string "") = false ∧ (string "").looseEq (array []) = false := by
  intro point turned a b
  have hinner : Reordered point turned := .members (.swap _ _ [])
  have hitem : Reordered (.array [point]) (.array [turned]) := .item [] hinner []
  have hmember : Reordered a.val (.object [("p", .array [turned]), ("q", .string "s")]) :=
    .member [] "p" hitem [("q", .string "s")]
  have hswap : Reordered (.object [("p", .array [turned]), ("q", .string "s")]) b.val :=
    .members (.swap _ _ [])
  have hreordered : Relation.ReflTransGen Reordered a.val b.val :=
    .tail (.single hmember) hswap
  obtain ⟨_, horder, _, hloose⟩ := equality_laws
  have hstrict : a.val.strictEq b.val = true := horder a b hreordered
  obtain ⟨hcomm, hcontains, _⟩ := hloose a b
  have hkind : (array []).kind ≠ (string "").kind := by decide
  obtain ⟨_, _, _, hapart⟩ := hloose ⟨array [], rfl⟩ ⟨string "", rfl⟩
  exact ⟨hreordered, hstrict, hcomm ▸ hcontains hstrict, hkind, hapart hkind (.inl rfl)⟩

end PathQuery.Json
