import PathQuery.Proofs.Rules.Path

/-! Reading paths comes to an end.
Every rule that is repeated takes a token whenever it applies, so that no repetition is idle, and no
call of an expression goes astray. What the rules make of tokens is what parsing makes of them. -/
namespace PathQuery.Rule

open PathQuery.Expr Step Grammar

variable {ts rest : List Token} {e : Expr} {inner : Rule Expr}

/-! ## Expressions -/

theorem exists_tokens (level : Level) (h : Reads (level.read ts) e rest) :
    ∃ used, used ++ rest = ts := by
  have chain : ∀ {n : Nat}, n ≤ 5 → Reads (readAt n ts) e rest → ∃ used, used ++ rest = ts := by
    intro n hn h
    obtain ⟨c, hc, -⟩ := exists_chain hn h
    exact ⟨c.tokens, hc⟩
  cases level with
  | access =>
    obtain ⟨target, mid, ht, ha⟩ := read_access_iff.mp h
    obtain ⟨p, rfl, -⟩ := exists_primary ht
    obtain ⟨a, rfl, -⟩ := lookahead_accessors ha
    exact ⟨p.tokens ++ a.tokens, List.append_assoc ..⟩
  | operand =>
    obtain ⟨p, hp, -⟩ := exists_primary h
    exact ⟨p.tokens, hp⟩
  | _ => exact chain (by decide) h

theorem uses_expression (level : Level) : Uses 1 (expression level) := by
  intro ts
  have hc := carries_expression level ts
  cases hx : level.read ts with
  | ok r =>
    have hr : Reads (level.read ts) r.value r.rest := ⟨r.shorter, hx⟩
    obtain ⟨used, hused⟩ := exists_tokens level hr
    refine .inl ⟨r.value, used, r.rest, hc.reads hr, hused, ?_⟩
    have hlength := congrArg List.length hused
    have := r.shorter
    rw [List.length_append] at hlength
    omega
  | error k =>
    refine .inr ⟨k, ?_⟩
    rw [hc.fails hx]
    split
    · exact .inr rfl
    · exact .inl rfl

theorem uses_operation (n : Nat) (h : Uses 1 inner) : Uses 1 (operation n inner) :=
  (Uses.accept.bind fun _ => h.commit.bind fun _ => .pure).mono (by decide)

theorem uses_arguments (h : Uses 1 inner) : Uses 1 (arguments inner) :=
  ((h.separated.mono (by decide)).orElse .pure).enclosed

theorem uses_access (h : Uses 1 inner) : Uses 1 (access inner) := by
  refine Uses.accept.bind (m := 0) fun name =>
    (uses_arguments h).optional.bind (m := 0) fun args => ?_
  cases args with
  | none => exact .pure
  | some args =>
    cases hm : Method.ofName? name with
    | none => simpa [hm] using .fail
    | some m => simpa [hm] using .pure

theorem uses_suffix (h : Uses 1 inner) : Uses 1 (suffix inner) :=
  ((Uses.symbol.bind fun _ => (uses_access h).commit).mono (by decide)).orElse h.enclosed.map

/-! ## Paths -/

theorem uses_member : Uses 1 member :=
  Uses.accept.map.orElse (Uses.accept.map.orElse (Uses.symbol.bind fun _ => .pure))

theorem uses_slice : Uses 1 slice :=
  Uses.accept.optional.bind fun _ => Uses.symbol.bind fun _ =>
    Uses.accept.optional.bind fun _ => .pure

theorem uses_selector : Uses 1 selector := Uses.accept.map.orElse Uses.accept.map

theorem uses_bracketBody : Uses 1 bracketBody := by
  have enclosed : ∀ {s : Symbol} {f : Expr → Step},
      Uses 1 (f <$> enclosed s (expression .or) .parenClose) :=
    (uses_expression .or).enclosed.map
  have star : Uses 1 (do symbol .star; return Step.wildcard) := Uses.symbol.bind fun _ => .pure
  exact enclosed.orElse (enclosed.orElse (enclosed.orElse (star.orElse
    (uses_slice.orElse uses_selector.separated.map))))

theorem uses_bracket : Uses 1 bracket := uses_bracketBody.enclosed

theorem uses_brace : Uses 1 brace := Uses.accept.separated.enclosed.map

theorem uses_recursion : Uses 1 recursion := by
  refine Uses.symbol.bind (m := 0) fun _ =>
    (uses_member.orElse (uses_bracket.orElse uses_brace)).optional.bind (m := 0) fun step => ?_
  cases step with
  | some step => exact .pure
  | none => exact .pure

theorem uses_coercion : Uses 1 coercion := by
  refine Uses.accept.bind (m := 0) fun name => ?_
  cases hc : Coercion.ofName? name with
  | none => simpa [hc] using .fail
  | some c => simpa [hc] using .pure

/-- Also where `..` is no step, the token is taken. -/
theorem uses_segment : Uses 1 segment := by
  have dot : Uses 1 (do symbol .dot; (fun s => [s]) <$> commit member) :=
    (Uses.symbol.bind fun _ => uses_member.commit.map).mono (by decide)
  exact dot.orElse (uses_recursion.orElse (uses_bracket.map.orElse
    (uses_brace.map.orElse uses_coercion.map)))

/-- Segments, suffixes, operators with their operands and expressions take a token whenever they
apply, and repeating them is never idle. Every call that an expression makes leads on, as it makes
no difference what other calls would do. The readers do what the rules do, and all tokens are parsed
or rejected. -/
theorem parsing_ends :
    (Uses 1 segment ∧ Uses 0 (repeated segment)) ∧
    (Uses 1 (suffix (expression .or)) ∧ Uses 0 (repeated (suffix (expression .or)))) ∧
    (∀ n level, Uses 1 (operation n (expression level)) ∧
      Uses 0 (repeated (operation n (expression level)))) ∧
    (∀ level, Uses 1 (expression level) ∧ expression level = ofLevel expression level ∧
      ∀ other ts, expression level ts = ofLevel (divert other level ts) level ts) ∧
    (∀ level ts, Carries (expression level) level.starts ts (level.read ts)) ∧
    (∀ ts steps rest, segment ts = .ok (steps, rest) ↔ ReadsSome (readSegment? ts) steps rest) ∧
    ∀ ts, (∃ steps rest, path ts = .ok (steps, rest) ∧ Query.parse ts = .ok steps) ∨
      ∃ k, (path ts = .error (.soft k) ∨ path ts = .error (.final k)) ∧
        Query.parse ts = .error (.unexpected k) := by
  have suffixes := uses_suffix (uses_expression .or)
  have operations n level := uses_operation n (uses_expression level)
  refine ⟨⟨uses_segment, uses_segment.repeated⟩, ⟨suffixes, suffixes.repeated⟩,
    fun n level => ⟨operations n level, (operations n level).repeated⟩,
    fun level => ⟨uses_expression level, expression_eq level, ?_⟩, carries_expression,
    fun ts steps rest => segment_ok_iff, path_cases⟩
  exact fun other ts => expression_eq_divert other level ts

end PathQuery.Rule
