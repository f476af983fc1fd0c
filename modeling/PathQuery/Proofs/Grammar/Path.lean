import PathQuery.Proofs.Grammar.PathReaders

/-! The readers of paths and the grammar agree, from the body of brackets up to the whole path. -/
namespace PathQuery

namespace Grammar
open Step

variable {ts rest : List Token}

/-! ## Bodies and groups -/

theorem position_ne_symbol (p : Position) (s : Symbol) (mid more : List Token) :
    p.token :: mid ≠ .symbol s :: more := by
  simp [Position.token]

/-- No colon follows the first of some items, unless it follows them all. -/
theorem readBound_items (first : Item) (more : List Item) (hr : rest.head? ≠ some (.symbol .colon))
    (start : Option Int) (mid : List Token) :
    readBound (commaTokens Item.token first more ++ rest) ≠ (start, .symbol .colon :: mid) := by
  rw [commaTokens, List.cons_append]
  cases first with
  | name s => simp [Item.token, readBound, Token.index?]
  | position p =>
    rw [Item.token, readBound_position]
    cases more with
    | nil =>
      rintro ⟨⟩
      exact hr rfl
    | cons i more => simp

theorem reads_body (b : Body) (rest : List Token) :
    Reads (readBracketBody (b.tokens ++ .symbol .bracketClose :: rest)) b.step
      (.symbol .bracketClose :: rest) := by
  have enclosed : ∀ e : Chain 0, Reads (Expr.readAt 0
      (e.tokens ++ [.symbol .parenClose] ++ .symbol .bracketClose :: rest)) e.expr
      (.symbol .parenClose :: .symbol .bracketClose :: rest) := by
    intro e
    rw [List.append_assoc]
    exact reads_chain e _ (by simp)
  rw [readBracketBody_iff]
  cases b with
  | filter e => exact .inl ⟨_, e.expr, rfl, rfl, enclosed e⟩
  | map e => exact .inr (.inl ⟨_, e.expr, rfl, rfl, enclosed e⟩)
  | computed e => exact .inr (.inr (.inl ⟨_, e.expr, rfl, rfl, enclosed e⟩))
  | star => exact .inr (.inr (.inr (.inl ⟨rfl, rfl⟩)))
  | slice start stop =>
    have hstart := readBound_append start
      (.symbol .colon :: (stop.toList.map Position.token ++ .symbol .bracketClose :: rest))
      (fun p mid => position_ne_symbol p _ mid _)
    have hstop := readBound_append stop (.symbol .bracketClose :: rest)
      (fun p mid => position_ne_symbol p _ mid _)
    refine .inr (.inr (.inr (.inr (.inl ⟨start.map Position.index,
      stop.toList.map Position.token ++ .symbol .bracketClose :: rest, ?_, ?_, ?_⟩))))
    · simpa [Body.tokens] using hstart
    · rw [hstop]
      rfl
    · rw [hstop]
  | items first more =>
    refine .inr (.inr (.inr (.inr (.inr ⟨readBound_items first more (by simp),
      (first :: more).map Item.selector, (first.listStep_eq_ofSelectors more).symm, ?_⟩))))
    exact reads_items denotes_item first more (by simp)

theorem exists_body {s : Step} (h : Reads (readBracketBody ts) s rest) :
    ∃ b : Body, b.tokens ++ rest = ts ∧ b.step = s := by
  rcases readBracketBody_iff.mp h with ⟨mid, e, rfl, rfl, he⟩ | ⟨mid, e, rfl, rfl, he⟩ |
    ⟨mid, e, rfl, rfl, he⟩ | ⟨rfl, rfl⟩ | ⟨start, mid, hs, rfl, rfl⟩ | ⟨_, selectors, rfl, hi⟩
  · obtain ⟨c, rfl, rfl⟩ := exists_chain (Nat.zero_le 5) he
    exact ⟨.filter c, by simp [Body.tokens], rfl⟩
  · obtain ⟨c, rfl, rfl⟩ := exists_chain (Nat.zero_le 5) he
    exact ⟨.map c, by simp [Body.tokens], rfl⟩
  · obtain ⟨c, rfl, rfl⟩ := exists_chain (Nat.zero_le 5) he
    exact ⟨.computed c, by simp [Body.tokens], rfl⟩
  · exact ⟨.star, rfl, rfl⟩
  · obtain ⟨first, hf, hi⟩ := exists_bound ts
    obtain ⟨last, hl, hj⟩ := exists_bound mid
    rw [hs] at hf hi
    refine ⟨.slice first last, ?_, by simp [Body.step, hi, hj]⟩
    calc (Body.slice first last).tokens ++ (readBound mid).2
        = first.toList.map Position.token ++ .symbol .colon ::
            (last.toList.map Position.token ++ (readBound mid).2) := by simp [Body.tokens]
      _ = ts := by rw [hl]; exact hf
  · obtain ⟨first, more, rfl, rfl⟩ := exists_items denotes_item hi
    exact ⟨.items first more, rfl, first.listStep_eq_ofSelectors more⟩

theorem reads_bracket (b : Body) (rest : List Token) :
    Reads (readBracket (b.tokens ++ .symbol .bracketClose :: rest)) b.step rest :=
  readBracket_iff.mpr (reads_body b rest)

theorem reads_brace (first : String) (more : List String) (rest : List Token) :
    Reads (readBrace (commaTokens Token.string first more ++ .symbol .braceClose :: rest))
      (.record (first :: more)) rest := by
  have hk : Reads (readItems Token.key?
      (commaTokens Token.string first more ++ .symbol .braceClose :: rest))
      ((first :: more).map id) (.symbol .braceClose :: rest) :=
    reads_items denotes_key first more (by simp)
  exact readBrace_iff.mpr ⟨_, rfl, by simpa using hk⟩

theorem exists_brace {s : Step} (h : Reads (readBrace ts) s rest) :
    ∃ first more, commaTokens Token.string first more ++ .symbol .braceClose :: rest = ts ∧
      .record (first :: more) = s := by
  obtain ⟨keys, rfl, hk⟩ := readBrace_iff.mp h
  obtain ⟨first, more, rfl, rfl⟩ := exists_items denotes_key hk
  exact ⟨first, more, rfl, by simp⟩

/-! ## Segments -/

theorem reads_segment (s : Segment) (hs : s.Ends rest) :
    ReadsSome (readSegment? (s.tokens ++ rest)) s.steps rest := by
  rw [readSegment?_iff]
  cases s with
  | dot m => exact .inl ⟨_, m.step, rfl, rfl, readMember_iff.mpr ⟨m, rfl, rfl⟩⟩
  | descendMember m =>
    exact .inr (.inl ⟨_, rfl, readRecursion_iff.mpr (.inl ⟨m, rfl, rfl⟩)⟩)
  | descendGroup g =>
    refine .inr (.inl ⟨_, rfl, readRecursion_iff.mpr ?_⟩)
    cases g with
    | bracket b =>
      exact .inr (.inl ⟨_, b.step, by simp [Group.tokens], rfl, reads_bracket b rest⟩)
    | brace first more =>
      exact .inr (.inr (.inl ⟨_, _, by simp [Group.tokens], rfl, reads_brace first more rest⟩))
  | descendNothing =>
    exact .inr (.inl ⟨_, rfl, readRecursion_iff.mpr (.inr (.inr (.inr ⟨hs rfl, rfl, rfl⟩)))⟩)
  | group g =>
    cases g with
    | bracket b =>
      exact .inr (.inr (.inl ⟨_, b.step, by simp [Segment.tokens, Group.tokens], rfl,
        reads_bracket b rest⟩))
    | brace first more =>
      exact .inr (.inr (.inr (.inl ⟨_, _, by simp [Segment.tokens, Group.tokens], rfl,
        reads_brace first more rest⟩)))
  | coercion c => exact .inr (.inr (.inr (.inr ⟨c, rfl, rfl⟩)))

theorem exists_segment {steps : List Step} (h : ReadsSome (readSegment? ts) steps rest) :
    ∃ s : Segment, s.tokens ++ rest = ts ∧ s.steps = steps ∧ s.Ends rest := by
  rcases readSegment?_iff.mp h with ⟨mid, step, rfl, rfl, hm⟩ | ⟨mid, rfl, hr⟩ |
    ⟨mid, step, rfl, rfl, hb⟩ | ⟨mid, step, rfl, rfl, hb⟩ | ⟨c, rfl, rfl⟩
  · obtain ⟨m, rfl, rfl⟩ := readMember_iff.mp hm
    exact ⟨.dot m, rfl, rfl, nofun⟩
  · rcases readRecursion_iff.mp hr with ⟨m, rfl, rfl⟩ | ⟨mid, step, rfl, rfl, hb⟩ |
      ⟨mid, step, rfl, rfl, hb⟩ | ⟨ht, rfl, rfl⟩
    · exact ⟨.descendMember m, rfl, rfl, nofun⟩
    · obtain ⟨b, rfl, rfl⟩ := exists_body (readBracket_iff.mp hb)
      exact ⟨.descendGroup (.bracket b), by simp [Segment.tokens, Group.tokens], rfl, nofun⟩
    · obtain ⟨first, more, rfl, rfl⟩ := exists_brace hb
      exact ⟨.descendGroup (.brace first more), by simp [Segment.tokens, Group.tokens], rfl, nofun⟩
    · exact ⟨.descendNothing, rfl, rfl, fun _ => ht⟩
  · obtain ⟨b, rfl, rfl⟩ := exists_body (readBracket_iff.mp hb)
    exact ⟨.group (.bracket b), by simp [Segment.tokens, Group.tokens], rfl, nofun⟩
  · obtain ⟨first, more, rfl, rfl⟩ := exists_brace hb
    exact ⟨.group (.brace first more), by simp [Segment.tokens, Group.tokens], rfl, nofun⟩
  · exact ⟨.coercion c, rfl, rfl, nofun⟩

/-! ## Paths -/

theorem readSegments_iff {steps : List Step} :
    readSegments ts = .ok (steps, rest) ↔
      (readSegment? ts = .ok none ∧ [] = steps ∧ ts = rest) ∨
      (∃ head mid more, ReadsSome (readSegment? ts) head mid ∧
        readSegments mid = .ok (more, rest) ∧ head ++ more = steps) := by
  rw [readSegments]
  cases readSegment? ts with
  | error k => simp [bind, Except.bind]
  | ok r =>
    cases r with
    | none => simp [bind, Except.bind, pure, Except.pure]
    | some r =>
      simp only [bind, Except.bind, pure, Except.pure, ReadsSome.ok_iff, reduceCtorEq, false_and,
        false_or, Except.ok.injEq]
      cases hm : readSegments r.rest with
      | error k => simp [hm]
      | ok p => cases p; simp [hm, and_comm]

/-- What follows the end of a path does not matter. -/
theorem ends_finish {s : Segment} (ts rest : List Token) :
    s.Ends (ts ++ [.finish]) ↔ s.Ends (ts ++ .finish :: rest) := by
  cases ts <;> simp [Segment.Ends]

theorem readSegments_append (segments : List Segment) (hb : BareAllowed segments)
    (rest : List Token) :
    readSegments (segments.flatMap Segment.tokens ++ .finish :: rest) =
      .ok (segments.flatMap Segment.steps, .finish :: rest) := by
  induction segments with
  | nil => exact readSegments_iff.mpr (.inl ⟨rfl, rfl, rfl⟩)
  | cons s segments ih =>
    obtain ⟨hs, hb⟩ := hb
    have hs := reads_segment s ((ends_finish _ rest).mp hs)
    rw [List.flatMap_cons, List.append_assoc, readSegments_iff]
    exact .inr ⟨_, _, _, hs, ih hb, rfl⟩

theorem exists_segments {ts rest : List Token} {steps : List Step}
    (h : readSegments ts = .ok (steps, .finish :: rest)) :
    ∃ segments : List Segment, segments.flatMap Segment.tokens ++ .finish :: rest = ts ∧
      segments.flatMap Segment.steps = steps ∧ BareAllowed segments := by
  rcases readSegments_iff.mp h with ⟨_, rfl, rfl⟩ | ⟨head, mid, more, hs, hm, rfl⟩
  · exact ⟨[], rfl, rfl, trivial⟩
  · have := hs.shorter
    obtain ⟨segments, rfl, rfl, hb⟩ := exists_segments hm
    obtain ⟨s, rfl, rfl, he⟩ := exists_segment hs
    exact ⟨s :: segments, by simp, rfl, (ends_finish _ rest).mpr he, hb⟩
termination_by ts.length

theorem ofTokens_iff {steps : List Step} :
    ofTokens ts = .ok steps ↔ ∃ mid more rest, ts = .symbol .root :: mid ∧
      readSegments mid = .ok (more, .finish :: rest) ∧ .root :: more = steps := by
  unfold ofTokens
  split
  next mid =>
    cases hm : readSegments mid with
    | error k => simp [hm, bind, Except.bind]
    | ok r =>
      obtain ⟨more, after⟩ := r
      simp only [bind, Except.bind]
      split
      next heq =>
        cases heq
        simp [hm, pure, Except.pure]
      next hn heq =>
        cases heq
        have hn : ∀ rest, after ≠ .finish :: rest := hn
        simp [hm, hn, unexpected]
  next hn =>
    have hn : ∀ mid, ts ≠ .symbol .root :: mid := hn
    simp [hn, unexpected]

/-- A path is read exactly if a derivation of it comes first among the tokens. -/
theorem ofTokens_iff_derivation {steps : List Step} :
    ofTokens ts = .ok steps ↔
      ∃ (p : Path) (rest : List Token), p.tokens ++ rest = ts ∧ p.steps = steps := by
  rw [ofTokens_iff]
  constructor
  · rintro ⟨mid, more, rest, rfl, hm, rfl⟩
    obtain ⟨segments, rfl, rfl, hb⟩ := exists_segments hm
    exact ⟨⟨segments, hb⟩, rest, by simp [Path.tokens], rfl⟩
  · rintro ⟨p, rest, rfl, rfl⟩
    exact ⟨_, _, rest, rfl, by simpa using readSegments_append p.segments p.bare rest, rfl⟩

end Grammar
end PathQuery
