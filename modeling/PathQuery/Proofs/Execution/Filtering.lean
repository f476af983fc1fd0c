import PathQuery.Proofs.Execution.Shape

/-! Filters as conditions.
A filter and the filter of the negation divide the candidates between them. Where no candidate is an
array, a second filter looks at the same values as the first, so that filters one after the other
are one filter of the conjunction; otherwise it would look at the items of what the first one
kept. -/
namespace PathQuery

/-- Values divided by a condition: those that meet it and those that do not, each in the order of all
the values and as often as there. -/
inductive Divided (condition : Json → Prop) : (values kept dropped : List Json) → Prop
  | nil : Divided condition [] [] []
  | keep {v : Json} {values kept dropped : List Json} (hv : condition v)
    (h : Divided condition values kept dropped) :
    Divided condition (v :: values) (v :: kept) dropped
  | drop {v : Json} {values kept dropped : List Json} (hv : ¬ condition v)
    (h : Divided condition values kept dropped) :
    Divided condition (v :: values) kept (v :: dropped)

theorem divided_filter (condition : Json → Bool) (values : List Json) :
    Divided (fun v => condition v = true) values (values.filter condition)
      (values.filter fun v => !condition v) := by
  induction values with
  | nil => exact .nil
  | cons v values ih =>
    cases hv : condition v with
    | true =>
      have hkept : (v :: values).filter condition = v :: values.filter condition :=
        List.filter_cons_of_pos hv
      have hdropped : (v :: values).filter (fun w => !condition w) =
          values.filter fun w => !condition w := List.filter_cons_of_neg (by simp [hv])
      rw [hkept, hdropped]
      exact .keep hv ih
    | false =>
      have hkept : (v :: values).filter condition = values.filter condition :=
        List.filter_cons_of_neg (by simp [hv])
      have hdropped : (v :: values).filter (fun w => !condition w) =
          v :: values.filter fun w => !condition w := List.filter_cons_of_pos (by simp [hv])
      rw [hkept, hdropped]
      exact .drop (by simp [hv]) ih

namespace Expr

variable {v root : Json}

/-! ## Truth of expressions -/

@[simp] theorem truthy_eval_not (e : Expr) :
    ((unary .not e).eval v root).truthy = !(e.eval v root).truthy := rfl

@[simp] theorem truthy_eval_and (a b : Expr) :
    ((binary .and a b).eval v root).truthy =
      ((a.eval v root).truthy && (b.eval v root).truthy) := rfl

@[simp] theorem truthy_eval_or (a b : Expr) :
    ((binary .or a b).eval v root).truthy =
      ((a.eval v root).truthy || (b.eval v root).truthy) := rfl

end Expr

namespace Step

variable {root : Json} {found : List Json} {p : Progress} {a b e : Expr}

/-! ## One filter -/

/-- Expressions that are true of the same values are the same filter. -/
theorem select_filter_congr
    (h : ∀ v, (a.eval v root).truthy = (b.eval v root).truthy) (found : List Json) :
    (filter a).select root found = (filter b).select root found := by
  simp only [select, h]

/-- A filter of the negation finds what the filter leaves out. -/
theorem divided_select_filter (e : Expr) (root : Json) (found : List Json) :
    Divided (fun v => (e.eval v root).truthy = true) (found.flatMap Json.candidates)
      ((filter e).select root found) ((filter (.unary .not e)).select root found) := by
  have hnot : (filter (.unary .not e)).select root found =
      (found.flatMap Json.candidates).filter fun v => !(e.eval v root).truthy := by
    simp only [select, Expr.truthy_eval_not]
  rw [hnot]
  exact divided_filter (fun v => (e.eval v root).truthy) _

/-! ## Filters in a row -/

/-- What a filter keeps is its own candidates, if no candidate of it is an array. -/
theorem candidates_select_filter
    (h : (found.flatMap Json.candidates).any Json.isArray = false) :
    ((filter a).select root found).flatMap Json.candidates = (filter a).select root found := by
  refine flatMap_candidates (List.any_eq_false.mpr fun v hv => ?_)
  exact List.any_eq_false.mp h v (List.mem_filter.mp hv).1

theorem select_filter_filter (h : (found.flatMap Json.candidates).any Json.isArray = false) :
    (filter b).select root ((filter a).select root found) =
      (filter (.binary .and a b)).select root found := by
  have hsecond : (filter b).select root ((filter a).select root found) =
      ((filter a).select root found).filter fun v => (b.eval v root).truthy := by
    rw [select, candidates_select_filter h]
  rw [hsecond, select, select, List.filter_filter]
  refine List.filter_congr fun v _ => ?_
  rw [Expr.truthy_eval_and, Bool.and_comm]

/-- Carrying out filters is carrying out what they find; the shape is that of a list in any case. -/
theorem run_filter (a : Expr) (p : Progress) :
    run root [filter a] p = ⟨(filter a).select root p.found, .sequence⟩ := rfl

theorem run_filter_filter (h : (p.found.flatMap Json.candidates).any Json.isArray = false) :
    run root [filter a, filter b] p = run root [filter (.binary .and a b)] p := by
  have htwo : run root [filter a, filter b] p =
      ⟨(filter b).select root ((filter a).select root p.found), .sequence⟩ := rfl
  rw [htwo, run_filter, select_filter_filter h]

theorem run_filter_congr (h : ∀ v, (a.eval v root).truthy = (b.eval v root).truthy)
    (p : Progress) : run root [filter a] p = run root [filter b] p := by
  rw [run_filter, run_filter, select_filter_congr h]

/-- Filters are a Boolean algebra of conditions. A filter keeps the candidates of which its expression
is true, and the filter of the negation the others. Where no candidate is an array, filters one after
the other are one filter of the conjunction, in any order, and a filter twice is the same filter once;
and the negation of a conjunction is the disjunction of the negations. -/
theorem filters_boolean (root : Json) (p : Progress) :
    (∀ e, Divided (fun v => (e.eval v root).truthy = true) (p.found.flatMap Json.candidates)
      (run root [filter e] p).found (run root [filter (.unary .not e)] p).found) ∧
    ((p.found.flatMap Json.candidates).any Json.isArray = false → ∀ a b e : Expr,
      run root [filter a, filter b] p = run root [filter (.binary .and a b)] p ∧
      run root [filter a, filter b] p = run root [filter b, filter a] p ∧
      run root [filter e, filter e] p = run root [filter e] p) ∧
    ∀ a b : Expr, run root [filter (.unary .not (.binary .and a b))] p =
      run root [filter (.binary .or (.unary .not a) (.unary .not b))] p := by
  refine ⟨fun e => divided_select_filter e root p.found, fun h a b e => ⟨?_, ?_, ?_⟩,
    fun a b => ?_⟩
  · exact run_filter_filter h
  · have hcomm : ∀ v, ((Expr.binary .and a b).eval v root).truthy =
        ((Expr.binary .and b a).eval v root).truthy := by
      intro v
      simp only [Expr.truthy_eval_and, Bool.and_comm]
    rw [run_filter_filter h, run_filter_filter h, run_filter_congr hcomm]
  · have hself : ∀ v, ((Expr.binary .and e e).eval v root).truthy = (e.eval v root).truthy := by
      intro v
      rw [Expr.truthy_eval_and, Bool.and_self]
    rw [run_filter_filter h, run_filter_congr hself]
  · have hmorgan : ∀ v, ((Expr.unary .not (.binary .and a b)).eval v root).truthy =
        ((Expr.binary .or (.unary .not a) (.unary .not b)).eval v root).truthy := by
      intro v
      simp only [Expr.truthy_eval_not, Expr.truthy_eval_and, Expr.truthy_eval_or, Bool.not_and]
    exact run_filter_congr hmorgan p

/-- An array among the candidates would be entered by the second filter. -/
example :
    let p : Progress := ⟨[.array [.array [.null]]], .single⟩
    (run .null [filter .current] p).found = [.array [.null]] ∧
    (run .null [filter .current, filter .current] p).found = [] := ⟨rfl, rfl⟩

/-- Two filters over the items of an array, one of which lacks the property that is asked for. -/
theorem filters_boolean_sample :
    let big : Json := .object [("a", .string "x"), ("b", .bool true)]
    let small : Json := .object [("a", .string "y"), ("b", .bool false)]
    let bare : Json := .object [("b", .bool true)]
    let p : Progress := ⟨[.array [big, small, bare, big], .null], .single⟩
    let a : Expr := .property .current "a"
    let b : Expr := .property .current "b"
    (p.found.flatMap Json.candidates).any Json.isArray = false ∧
    run .null [filter a, filter b] p = ⟨[big, big], .sequence⟩ ∧
    run .null [filter a, filter b] p = run .null [filter (.binary .and a b)] p ∧
    Divided (fun v => (b.eval v .null).truthy = true) [big, small, bare, big, .null]
      [big, bare, big] [small, .null] := by
  intro big small bare p a b
  have hflat : (p.found.flatMap Json.candidates).any Json.isArray = false := rfl
  obtain ⟨hdivided, hrow, _⟩ := filters_boolean .null p
  exact ⟨hflat, rfl, (hrow hflat a b a).1, hdivided b⟩

end Step
end PathQuery
