import PathQuery.Proofs.Grammar.Path
import PathQuery.Proofs.Grammar.PathFailures
import PathQuery.Proofs.Rules.Expression
import PathQuery.Query

/-! Paths by rules and by readers.
What the rules make of lists, groups, segments and a whole path is what the readers make of them. -/
namespace PathQuery.Rule

open PathQuery.Expr Step Grammar

variable {ts rest : List Token} {k : Token.Kind}

/-! ## Lists -/

section Items

variable {α : Type} {item? : Token → Option α}

/-- Further items never fail. -/
theorem repeated_next_accept (ts : List Token) :
    repeated (next (accept item?)) ts = .ok (readMoreItems item? ts) := by
  fun_induction readMoreItems item? ts with
  | case1 t mid a ha ih =>
    exact repeated_cons (next_comma.trans (accept_of_some ha))
      (by simp only [List.length_cons]; omega) ih
  | case2 t mid ha =>
    refine repeated_of_soft (next_comma.trans (accept_of_none ?_))
    rintro _ ⟨⟩
    exact ha
  | case3 ts h =>
    cases ts with
    | nil => exact repeated_of_soft (next_of_ne (by simp))
    | cons t mid =>
      by_cases ht : t = .symbol .comma
      · subst ht
        cases mid with
        | nil => exact repeated_of_soft (next_comma.trans (accept_of_none (by simp)))
        | cons u mid => exact absurd rfl (h u mid)
      · exact repeated_of_soft (next_of_ne (by simpa using ht))

theorem separated_of_none (h : ∀ t ∈ ts.head?, item? t = none) :
    separated (accept item?) ts = .error (.soft (Token.nextKind ts)) := by
  simp [separated, accept_of_none h]

theorem carries_separated :
    Carries (separated (accept item?)) (fun t => (item? t).isSome) ts (readItems item? ts) where
  reads hr := by
    obtain ⟨t, mid, a, rfl, ha, rfl, rfl⟩ := readItems_iff.mp hr
    simp [separated, accept_of_some ha, repeated_next_accept]
  fails hf := by
    obtain ⟨hn, rfl⟩ := readItems_fails.mp hf
    have hs : ts.head?.any (fun t => (item? t).isSome) = false :=
      any_head?_eq_false fun t ht => by rw [hn t ht]; rfl
    simp [separated_of_none hn, hs]

end Items

theorem selector_eq : selector = accept Token.selector? := by
  funext ts
  cases ts with
  | nil => rfl
  | cons t ts =>
    cases t with
    | number d =>
      cases h : (Token.number d).index? <;>
        simp [selector, accept, Token.selector?, h, Token.key?]
    | _ => rfl

/-! ## Brackets -/

theorem bound_eq (ts : List Token) : optional (accept Token.index?) ts = .ok (readBound ts) := by
  cases ts with
  | nil => rfl
  | cons t ts => cases h : t.index? <;> simp [optional, accept, readBound, h]

theorem slice_of_colon {start : Option Int} {mid : List Token}
    (h : readBound ts = (start, .symbol .colon :: mid)) :
    slice ts = .ok (.slice start (readBound mid).1, (readBound mid).2) := by
  simp [slice, bound_eq, h]

theorem slice_of_none (h : ∀ start mid, readBound ts ≠ (start, .symbol .colon :: mid)) :
    slice ts = .error (.soft (Token.nextKind (readBound ts).2)) := by
  have hcolon : ¬ (readBound ts).2.head? = some (.symbol .colon) := by
    intro hc
    obtain ⟨mid, hmid⟩ := List.head?_eq_some_iff.mp hc
    exact h (readBound ts).1 mid (Prod.ext rfl hmid)
  simp [slice, bound_eq, symbol_of_ne hcolon]

/-- The symbols that open an expression in brackets, with the steps of these expressions. -/
inductive Opens : Symbol → (Expr → Step) → Prop where
  | filter : Opens .filterOpen .filter
  | map : Opens .mapOpen .map
  | computed : Opens .parenOpen .computed

theorem skip_enclosed {opening : Symbol} (f : Expr → Step)
    (h : ¬ ts.head? = some (.symbol opening)) :
    (f <$> enclosed opening (expression .or) .parenClose) ts =
      .error (.soft (Token.nextKind ts)) := by
  rw [map_apply, enclosed_of_ne h]

theorem bracketBody_of_opens {s : Symbol} {f : Expr → Step} (h : Opens s f) :
    bracketBody (.symbol s :: ts) =
      (f <$> enclosed s (expression .or) .parenClose) (.symbol s :: ts) := by
  cases h with
  | filter => rw [bracketBody, Applies.enclosed.map.orElse]
  | map =>
    rw [bracketBody, orElse_of_soft (skip_enclosed _ (by simp)), Applies.enclosed.map.orElse]
  | computed =>
    rw [bracketBody, orElse_of_soft (skip_enclosed _ (by simp)),
      orElse_of_soft (skip_enclosed _ (by simp)), Applies.enclosed.map.orElse]

theorem bracketBody_star : bracketBody (.symbol .star :: ts) = .ok (.wildcard, ts) := by
  rw [bracketBody, orElse_of_soft (skip_enclosed _ (by simp)),
    orElse_of_soft (skip_enclosed _ (by simp)), orElse_of_soft (skip_enclosed _ (by simp))]
  simp

/-- No symbol that starts another body is there. -/
theorem bracketBody_of_ne (h : ∀ s ∈ .star :: opensExpression, ¬ ts.head? = some (.symbol s)) :
    bracketBody ts = (slice <|> ofSelectors <$> separated selector) ts := by
  rw [bracketBody, orElse_of_soft (skip_enclosed _ (h _ (by decide))),
    orElse_of_soft (skip_enclosed _ (h _ (by decide))),
    orElse_of_soft (skip_enclosed _ (h _ (by decide)))]
  exact orElse_of_soft (by rw [bind_apply, symbol_of_ne (h _ (by decide))])

theorem bracketBody_slice {start : Option Int} {mid : List Token}
    (h : readBound ts = (start, .symbol .colon :: mid)) :
    bracketBody ts = .ok (.slice start (readBound mid).1, (readBound mid).2) := by
  rw [bracketBody_of_ne, orElse_apply, slice_of_colon h]
  intro s hs ht
  obtain ⟨more, rfl⟩ := List.head?_eq_some_iff.mp ht
  cases h
  revert hs
  decide

theorem bracketBody_items (h : StartsItems ts) :
    bracketBody ts = (ofSelectors <$> separated (accept Token.selector?)) ts := by
  rw [bracketBody_of_ne h.symbol, orElse_apply, slice_of_none h.bound, selector_eq]

theorem bracketBody_reads {s : Step} (hr : Reads (readBracketBody ts) s rest) :
    bracketBody ts = .ok (s, rest) := by
  rcases readBracketBody_iff.mp hr with ⟨mid, e, rfl, rfl, he⟩ | ⟨mid, e, rfl, rfl, he⟩ |
    ⟨mid, e, rfl, rfl, he⟩ | ⟨rfl, rfl⟩ | ⟨start, mid, hb, rfl, rfl⟩ | ⟨hb, selectors, rfl, hi⟩
  · rw [bracketBody_of_opens .filter, map_apply, (carries_expression .or mid).enclosed_reads he]
  · rw [bracketBody_of_opens .map, map_apply, (carries_expression .or mid).enclosed_reads he]
  · rw [bracketBody_of_opens .computed, map_apply, (carries_expression .or mid).enclosed_reads he]
  · exact bracketBody_star
  · exact bracketBody_slice hb
  · have hs : ∀ s, ts.head? ≠ some (.symbol s) := by
      obtain ⟨t, mid, a, rfl, ha, -⟩ := readItems_iff.mp hi
      rintro s ⟨⟩
      cases ha
    rw [bracketBody_items ⟨fun s _ => hs s, hb⟩, map_apply, carries_separated.reads hi]

/-! ## Groups -/

theorem bracket_reads {s : Step} (hr : Reads (readBracket ts) s rest) :
    bracket (.symbol .bracketOpen :: ts) = .ok (s, rest) :=
  enclosed_of_ok (bracketBody_reads (readBracket_iff.mp hr))

theorem bracket_fails (hf : Fails (readBracket ts) k) :
    bracket (.symbol .bracketOpen :: ts) = .error (.final k) := by
  rcases readBracket_fails.mp hf with ⟨s, hs, mid, rfl, he⟩ | ⟨mid, rfl, hclose, rfl⟩ |
    ⟨start, mid, hb, hclose, rfl⟩ | ⟨hi, hitems | ⟨selectors, rest, hclose, hitems, rfl⟩⟩
  · obtain ⟨f, hs⟩ : ∃ f, Opens s f := by
      rcases (by simpa [opensExpression] using hs) with rfl | rfl | rfl
      · exact ⟨_, .filter⟩
      · exact ⟨_, .map⟩
      · exact ⟨_, .computed⟩
    have hmid := carries_expression .or mid
    rcases he with he | ⟨rest, hclose, ⟨e, he⟩, rfl⟩
    · refine enclosed_of_final ?_
      rw [bracketBody_of_opens hs, map_apply, hmid.enclosed_fails he]
    · refine enclosed_of_open (a := f e) ?_ hclose
      rw [bracketBody_of_opens hs, map_apply, hmid.enclosed_reads he]
  · exact enclosed_of_open bracketBody_star hclose
  · exact enclosed_of_open (bracketBody_slice hb) hclose
  · refine enclosed_of_soft ?_
    obtain ⟨hn, rfl⟩ := readItems_fails.mp hitems
    rw [bracketBody_items hi, map_apply, separated_of_none hn]
  · refine enclosed_of_open (a := ofSelectors selectors) ?_ hclose
    rw [bracketBody_items hi, map_apply, carries_separated.reads hitems]

theorem brace_reads {s : Step} (hr : Reads (readBrace ts) s rest) :
    brace (.symbol .braceOpen :: ts) = .ok (s, rest) := by
  obtain ⟨keys, rfl, hk⟩ := readBrace_iff.mp hr
  rw [brace, map_apply, carries_separated.enclosed_reads hk]

theorem brace_fails (hf : Fails (readBrace ts) k) :
    brace (.symbol .braceOpen :: ts) = .error (.final k) := by
  rw [brace, map_apply, carries_separated.enclosed_fails (readBrace_fails.mp hf)]

/-! ## Segments -/

theorem bracket_of_ne (h : ¬ ts.head? = some (.symbol .bracketOpen)) :
    bracket ts = .error (.soft (Token.nextKind ts)) :=
  enclosed_of_ne h

theorem brace_of_ne (h : ¬ ts.head? = some (.symbol .braceOpen)) :
    brace ts = .error (.soft (Token.nextKind ts)) := by
  rw [brace, map_apply, enclosed_of_ne h]

theorem member_token (m : Member) : member (m.token :: ts) = .ok (m.step, ts) := by
  cases m <;> simp [member, accept, Member.token, Member.step, Token.name?, Token.key?]

theorem member_of_ne (h : ∀ m : Member, ts.head? ≠ some m.token) :
    member ts = .error (.soft (Token.nextKind ts)) := by
  have hname : accept Token.name? ts = _ := accept_of_none fun t ht => by
    cases t with
    | identifier name => exact absurd ht (h (.name name))
    | _ => rfl
  have hkey : accept Token.key? ts = _ := accept_of_none fun t ht => by
    cases t with
    | string name => exact absurd ht (h (.quoted name))
    | _ => rfl
  have hstar : ¬ ts.head? = some (.symbol .star) := h .star
  simp [member, hname, hkey, hstar]

theorem member_symbol {s : Symbol} (hs : s ≠ .star) :
    member (.symbol s :: ts) = .error (.soft (.symbol s)) :=
  member_of_ne fun m => by cases m <;> simp [Member.token, hs]

theorem recursion_of_ne (h : ¬ ts.head? = some (.symbol .recurse)) :
    recursion ts = .error (.soft (Token.nextKind ts)) := by
  simp [recursion, h]

theorem recursion_reads {steps : List Step} (hr : Reads (readRecursion ts) steps rest) :
    recursion (.symbol .recurse :: ts) = .ok (steps, rest) := by
  rcases readRecursion_iff.mp hr with ⟨m, rfl, rfl⟩ | ⟨mid, step, rfl, rfl, hb⟩ |
    ⟨mid, step, rfl, rfl, hb⟩ | ⟨hn, rfl, rfl⟩
  · simp [recursion, optional, member_token]
  · simp [recursion, optional, member_symbol, bracket_reads hb]
  · simp [recursion, optional, member_symbol, bracket_of_ne, brace_reads hb]
  · have hn : ∀ t, startsTarget t = true → ts.head? ≠ some t :=
      fun t hs ht => absurd hs (Bool.eq_false_iff.mp (hn t ht))
    have hmember : member ts = _ := member_of_ne fun m => hn m.token (by cases m <;> rfl)
    have hbracket : bracket ts = _ := bracket_of_ne (hn _ rfl)
    have hbrace : brace ts = _ := brace_of_ne (hn _ rfl)
    simp [recursion, optional, hmember, hbracket, hbrace]

theorem recursion_fails (hf : FailsGroup ts k) :
    recursion (.symbol .recurse :: ts) = .error (.final k) := by
  rcases hf with ⟨mid, rfl, hf⟩ | ⟨mid, rfl, hf⟩
  · simp [recursion, optional, member_symbol, bracket_fails hf]
  · simp [recursion, optional, member_symbol, bracket_of_ne, brace_fails hf]

theorem coercion_cons {name : String} :
    coercion (.coercion name :: ts) = match Coercion.ofName? name with
      | some c => .ok (.coerce c, ts)
      | none => .error (.final .coercion) := by
  cases h : Coercion.ofName? name <;> simp [coercion, accept, h]

theorem coercion_of_ne (h : ∀ name, ts.head? ≠ some (.coercion name)) :
    coercion ts = .error (.soft (Token.nextKind ts)) := by
  unfold coercion
  rw [bind_apply, accept_of_none]
  intro t ht
  cases t with
  | coercion name => exact absurd ht (h name)
  | _ => rfl

theorem segment_coercion {name : String} :
    segment (.coercion name :: ts) =
      ((fun s => [s]) <$> coercion) (.coercion name :: ts) := by
  simp [segment, recursion_of_ne, bracket_of_ne, brace_of_ne]

theorem segment_reads {steps : List Step} (hr : ReadsSome (readSegment? ts) steps rest) :
    segment ts = .ok (steps, rest) := by
  rcases readSegment?_iff.mp hr with ⟨mid, step, rfl, rfl, hm⟩ | ⟨mid, rfl, hm⟩ |
    ⟨mid, step, rfl, rfl, hm⟩ | ⟨mid, step, rfl, rfl, hm⟩ | ⟨c, rfl, rfl⟩
  · obtain ⟨m, rfl, rfl⟩ := readMember_iff.mp hm
    simp [segment, commit, member_token]
  · simp [segment, recursion_reads hm]
  · simp [segment, recursion_of_ne, bracket_reads hm]
  · simp [segment, recursion_of_ne, bracket_of_ne, brace_reads hm]
  · rw [segment_coercion, map_apply, coercion_cons, Coercion.ofName?_eq_some.mpr rfl]

theorem segment_fails (hf : Fails (readSegment? ts) k) : segment ts = .error (.final k) := by
  rcases readSegment?_fails.mp hf with ⟨mid, rfl, hm⟩ | ⟨mid, rfl, hm⟩ |
    (⟨mid, rfl, hm⟩ | ⟨mid, rfl, hm⟩) | ⟨name, mid, rfl, hn, rfl⟩
  · obtain ⟨hne, rfl⟩ := readMember_fails.mp hm
    simp [segment, commit, member_of_ne hne]
  · simp [segment, recursion_fails hm]
  · simp [segment, recursion_of_ne, bracket_fails hm]
  · simp [segment, recursion_of_ne, bracket_of_ne, brace_fails hm]
  · rw [segment_coercion, map_apply, coercion_cons, hn]

theorem segment_of_none (h : readSegment? ts = .ok none) :
    segment ts = .error (.soft (Token.nextKind ts)) := by
  obtain ⟨hs, hc⟩ := readSegment?_eq_none.mp h
  have hdot : ¬ ts.head? = some (.symbol .dot) := hs .dot (by decide)
  simp [segment, hdot, recursion_of_ne (hs .recurse (by decide)),
    bracket_of_ne (hs .bracketOpen (by decide)), brace_of_ne (hs .braceOpen (by decide)),
    coercion_of_ne hc]

/-- The rule has no other results than the reader. -/
theorem segment_ok_iff {steps : List Step} :
    segment ts = .ok (steps, rest) ↔ ReadsSome (readSegment? ts) steps rest := by
  constructor
  · intro h
    cases hx : readSegment? ts with
    | error k => cases h.symm.trans (segment_fails hx)
    | ok r? =>
      cases r? with
      | none => cases h.symm.trans (segment_of_none hx)
      | some r =>
        have hr : ReadsSome (readSegment? ts) r.value r.rest := ⟨r.shorter, hx⟩
        cases h.symm.trans (segment_reads hr)
        exact ReadsSome.ok_iff.mpr ⟨rfl, rfl⟩
  · exact segment_reads

/-! ## Whole paths -/

theorem segments_read {ts rest : List Token} {steps : List Step}
    (hr : readSegments ts = .ok (steps, rest)) :
    ∃ more, repeated segment ts = .ok (more, rest) ∧ more.flatten = steps := by
  rcases readSegments_iff.mp hr with ⟨hn, rfl, rfl⟩ | ⟨head, mid, more, hhead, hmore, rfl⟩
  · exact ⟨[], repeated_of_soft (segment_of_none hn), rfl⟩
  · have hmid := hhead.shorter
    obtain ⟨segments, hsegments, rfl⟩ := segments_read hmore
    exact ⟨head :: segments, repeated_cons (segment_reads hhead) hmid hsegments, rfl⟩
termination_by ts.length

/-- A segment fails, or something other than the end of the path follows the segments. -/
theorem segments_fail {ts : List Token} {k : Token.Kind} (hf : FailsSegments ts k) :
    repeated segment ts = .error (.final k) ∨ ∃ segments rest,
      repeated segment ts = .ok (segments, rest) ∧ rest.head? ≠ some .finish ∧
        Token.nextKind rest = k := by
  rcases failsSegments_iff.mp hf with hf | ⟨hn, hrest⟩ | ⟨head, mid, hhead, hf⟩
  · exact .inl (repeated_of_final (segment_fails hf))
  · exact .inr ⟨[], ts, repeated_of_soft (segment_of_none hn), hrest⟩
  · have hmid := hhead.shorter
    have hfirst := segment_reads hhead
    rcases segments_fail hf with hf | ⟨segments, rest, hr, hrest⟩
    · exact .inl (repeated_later hfirst hmid hf)
    · exact .inr ⟨head :: segments, rest, repeated_cons hfirst hmid hr, hrest⟩
termination_by ts.length

theorem finish_of_ne (h : ts.head? ≠ some .finish) :
    finish ts = .error (.soft (Token.nextKind ts)) :=
  accept_of_none fun t ht => if_neg (by rintro rfl; exact h ht)

theorem path_reads {steps : List Step} (h : ofTokens ts = .ok steps) :
    ∃ rest, path ts = .ok (steps, rest) := by
  obtain ⟨mid, more, rest, rfl, hm, rfl⟩ := ofTokens_iff.mp h
  obtain ⟨segments, hs, rfl⟩ := segments_read hm
  have hfinish : finish (.finish :: rest) = .ok ((), rest) := accept_of_some rfl
  exact ⟨rest, by simp [path, hs, hfinish]⟩

theorem path_fails (h : Fails (ofTokens ts) k) :
    path ts = .error (.soft k) ∨ path ts = .error (.final k) := by
  rcases ofTokens_fails.mp h with ⟨hn, rfl⟩ | ⟨mid, rfl, hf⟩
  · exact .inl (by simp [path, hn])
  · rcases segments_fail hf with hs | ⟨segments, rest, hs, hrest, rfl⟩
    · exact .inr (by simp [path, hs])
    · exact .inl (by simp [path, hs, finish_of_ne hrest])

/-- All tokens are parsed or rejected, and the rule for paths says how. -/
theorem path_cases (ts : List Token) :
    (∃ steps rest, path ts = .ok (steps, rest) ∧ Query.parse ts = .ok steps) ∨
      ∃ k, (path ts = .error (.soft k) ∨ path ts = .error (.final k)) ∧
        Query.parse ts = .error (.unexpected k) := by
  unfold Query.parse
  cases h : ofTokens ts with
  | ok steps =>
    obtain ⟨rest, hr⟩ := path_reads h
    exact .inl ⟨steps, rest, hr, rfl⟩
  | error k => exact .inr ⟨k, path_fails h, rfl⟩

end PathQuery.Rule
