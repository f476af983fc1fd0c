import PathQuery.Proofs.Grammar.Failures
import PathQuery.Proofs.Grammar.PathReaders

/-! How the readers of lists, groups and segments fail. -/
namespace PathQuery.Step
open PathQuery.Expr Grammar

variable {ts : List Token} {k : Token.Kind}

section Items

variable {α : Type} {item? : Token → Option α} {close : Symbol}

/-- A list of items up to a closing symbol fails. -/
def FailsItems (item? : Token → Option α) (close : Symbol) (ts : List Token) (k : Token.Kind) :
    Prop :=
  Fails (readItems item? ts) k ∨ ∃ as rest, rest.head? ≠ some (.symbol close) ∧
    Reads (readItems item? ts) as rest ∧ Token.nextKind rest = k

theorem readItems_fails :
    Fails (readItems item? ts) k ↔
      (∀ t ∈ ts.head?, item? t = none) ∧ Token.nextKind ts = k := by
  unfold readItems
  split
  · simp [Token.nextKind]
  next t mid =>
    split
    next a ha => simp [ha]
    next hn => simp [hn, Token.nextKind]

end Items

/-- The symbols that open an expression in brackets. -/
def opensExpression : List Symbol := [.filterOpen, .mapOpen, .parenOpen]

/-- Brackets start with a list of items, if with anything. -/
structure StartsItems (ts : List Token) : Prop where
  symbol : ∀ s ∈ .star :: opensExpression, ts.head? ≠ some (.symbol s)
  bound : ∀ start mid, readBound ts ≠ (start, .symbol .colon :: mid)

theorem readBracket_fails :
    Fails (readBracket ts) k ↔
      (∃ s ∈ opensExpression, ∃ mid, ts = .symbol s :: mid ∧ (FailsUpTo .parenClose mid k ∨
        ∃ rest, rest.head? ≠ some (.symbol .bracketClose) ∧
          (∃ e, Reads (readAt 0 mid) e (.symbol .parenClose :: rest)) ∧
          Token.nextKind rest = k)) ∨
      (∃ mid, ts = .symbol .star :: mid ∧ mid.head? ≠ some (.symbol .bracketClose) ∧
        Token.nextKind mid = k) ∨
      (∃ start mid, readBound ts = (start, .symbol .colon :: mid) ∧
        (readBound mid).2.head? ≠ some (.symbol .bracketClose) ∧
        Token.nextKind (readBound mid).2 = k) ∨
      (StartsItems ts ∧ FailsItems Token.selector? .bracketClose ts k) := by
  have hb : ∀ s mid, readBound (.symbol s :: mid) = (none, .symbol s :: mid) := fun _ _ => rfl
  have hs : ∀ s ∈ .star :: opensExpression, ∀ mid, ¬ StartsItems (.symbol s :: mid) :=
    fun s hs mid h => h.symbol s hs rfl
  have enclosed : ∀ f ts, Fails (readEnclosed f ts) k ↔ FailsUpTo .parenClose ts k := by
    intro f ts
    simp [readEnclosed, Expr.read, FailsUpTo]
  rw [readBracket, readBracketBody.eq_def]
  split
  case h_1 | h_2 | h_3 =>
    simp (disch := decide) [enclosed, readEnclosed_iff, Reading.skip, Reading.within, hb, hs,
      opensExpression]
  case h_4 => simp (disch := decide) [hb, hs, opensExpression]
  next h1 h2 h3 h4 =>
    have h1 : ∀ mid, ts ≠ .symbol .filterOpen :: mid := h1
    have h2 : ∀ mid, ts ≠ .symbol .mapOpen :: mid := h2
    have h3 : ∀ mid, ts ≠ .symbol .parenOpen :: mid := h3
    have h4 : ∀ mid, ts ≠ .symbol .star :: mid := h4
    rcases readSlice?_cases ts with ⟨start, mid, r, hb, hs, hv, hr⟩ | ⟨hs, hb⟩
    · have hn : ¬ StartsItems ts := fun h => h.bound _ _ hb
      simp [hs, hb, h1, h2, h3, h4, hv, hr, hn, opensExpression]
    · have hi : StartsItems ts :=
        ⟨by simp [opensExpression, h1, h2, h3, h4, List.head?_eq_some_iff], hb⟩
      simp [hs, hb, h1, h2, h3, h4, hi, opensExpression, Reading.map, FailsItems]

theorem readBrace_fails :
    Fails (readBrace ts) k ↔ FailsItems Token.key? .braceClose ts k := by
  simp [readBrace, FailsItems]

theorem readMember_fails :
    Fails (readMember ts) k ↔ (∀ m : Member, ts.head? ≠ some m.token) ∧ Token.nextKind ts = k := by
  rw [readMember.eq_def]
  split
  next name mid => exact iff_of_false Fails.not_ok fun h => h.1 (.name name) rfl
  next name mid => exact iff_of_false Fails.not_ok fun h => h.1 (.quoted name) rfl
  next mid => exact iff_of_false Fails.not_ok fun h => h.1 .star rfl
  next h1 h2 h3 =>
    have hm : ∀ m : Member, ts.head? ≠ some m.token := by
      intro m hm
      obtain ⟨mid, rfl⟩ := List.head?_eq_some_iff.mp hm
      cases m with
      | name s => exact h1 s mid rfl
      | quoted s => exact h2 s mid rfl
      | star => exact h3 mid rfl
    simp [hm]

/-- The reader of the brackets or braces that come next fails. -/
def FailsGroup (ts : List Token) (k : Token.Kind) : Prop :=
  (∃ mid, ts = .symbol .bracketOpen :: mid ∧ Fails (readBracket mid) k) ∨
    ∃ mid, ts = .symbol .braceOpen :: mid ∧ Fails (readBrace mid) k

theorem readRecursion_fails : Fails (readRecursion ts) k ↔ FailsGroup ts k := by
  rw [readRecursion.eq_def]
  split <;> simp_all [FailsGroup]

theorem readSegment?_fails :
    Fails (readSegment? ts) k ↔
      (∃ mid, ts = .symbol .dot :: mid ∧ Fails (readMember mid) k) ∨
      (∃ mid, ts = .symbol .recurse :: mid ∧ FailsGroup mid k) ∨
      FailsGroup ts k ∨
      (∃ name mid, ts = .coercion name :: mid ∧ Coercion.ofName? name = none ∧
        .coercion = k) := by
  rw [readSegment?.eq_def]
  split
  next => simp [FailsGroup]
  next => simp [FailsGroup, readRecursion_fails]
  next => simp [FailsGroup]
  next => simp [FailsGroup]
  next name mid =>
    cases hc : Coercion.ofName? name <;> simp [FailsGroup, hc]
  next h1 h2 h3 h4 h5 =>
    have h1 : ∀ mid, ts ≠ .symbol .dot :: mid := h1
    have h2 : ∀ mid, ts ≠ .symbol .recurse :: mid := h2
    have h3 : ∀ mid, ts ≠ .symbol .bracketOpen :: mid := h3
    have h4 : ∀ mid, ts ≠ .symbol .braceOpen :: mid := h4
    have h5 : ∀ name mid, ts ≠ .coercion name :: mid := h5
    simp [FailsGroup, h1, h2, h3, h4, h5]

/-- The symbols that start a segment. -/
def startsSegment : List Symbol := [.dot, .recurse, .bracketOpen, .braceOpen]

theorem readSegment?_eq_none :
    readSegment? ts = .ok none ↔
      (∀ s ∈ startsSegment, ts.head? ≠ some (.symbol s)) ∧
        ∀ name, ts.head? ≠ some (.coercion name) := by
  have hmap : ∀ {α β : Type} {x : Except Token.Kind α} {f : α → Option β},
      (∀ a, (f a).isSome) → f <$> x ≠ .ok none := by
    intro α β x f hf h
    cases x with
    | error k => cases h
    | ok a => simpa [Except.ok.inj h] using hf a
  rw [readSegment?.eq_def]
  split
  next => simp [startsSegment, hmap]
  next => simp [startsSegment, hmap]
  next => simp [startsSegment, hmap]
  next => simp [startsSegment, hmap]
  next name mid => cases Coercion.ofName? name <;> simp
  next h1 h2 h3 h4 h5 =>
    have h1 : ∀ mid, ts ≠ .symbol .dot :: mid := h1
    have h2 : ∀ mid, ts ≠ .symbol .recurse :: mid := h2
    have h3 : ∀ mid, ts ≠ .symbol .bracketOpen :: mid := h3
    have h4 : ∀ mid, ts ≠ .symbol .braceOpen :: mid := h4
    have h5 : ∀ name mid, ts ≠ .coercion name :: mid := h5
    simp [startsSegment, List.head?_eq_some_iff, h1, h2, h3, h4, h5]

/-- The segments of a path fail, or something other than its end follows them. -/
def FailsSegments (ts : List Token) (k : Token.Kind) : Prop :=
  Fails (readSegments ts) k ∨ ∃ steps rest, readSegments ts = .ok (steps, rest) ∧
    rest.head? ≠ some .finish ∧ Token.nextKind rest = k

theorem failsSegments_iff :
    FailsSegments ts k ↔
      Fails (readSegment? ts) k ∨
      (readSegment? ts = .ok none ∧ ts.head? ≠ some .finish ∧ Token.nextKind ts = k) ∨
      ∃ head mid, ReadsSome (readSegment? ts) head mid ∧ FailsSegments mid k := by
  unfold FailsSegments
  rw [readSegments]
  cases readSegment? ts with
  | error k' => simp [bind, Except.bind]
  | ok r =>
    cases r with
    | none => simp [bind, Except.bind, pure, Except.pure]
    | some r =>
      simp only [bind, Except.bind, pure, Except.pure, ReadsSome.ok_iff, reduceCtorEq, false_and,
        false_or, Except.ok.injEq]
      cases hm : readSegments r.rest with
      | error k' => simp [hm]
      | ok p => cases p; simp [hm]

theorem ofTokens_fails :
    Fails (ofTokens ts) k ↔
      (ts.head? ≠ some (.symbol .root) ∧ Token.nextKind ts = k) ∨
      ∃ mid, ts = .symbol .root :: mid ∧ FailsSegments mid k := by
  unfold ofTokens
  split
  next mid =>
    unfold FailsSegments
    cases hm : readSegments mid with
    | error k' => simp [hm, bind, Except.bind]
    | ok r =>
      obtain ⟨more, after⟩ := r
      simp only [bind, Except.bind]
      split
      next heq =>
        cases heq
        simp [hm]
      next hn heq =>
        cases heq
        have hn : ∀ rest, after ≠ .finish :: rest := hn
        simp [hm, hn, List.head?_eq_some_iff]
  next hn =>
    have hn : ∀ mid, ts ≠ .symbol .root :: mid := hn
    simp [hn, List.head?_eq_some_iff]

end PathQuery.Step
