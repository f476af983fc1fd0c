import PathQuery.Expr.Parser
import PathQuery.Proofs.Grammar.Derivation
import PathQuery.Proofs.Reading

/-! What each reader of expressions accepts, one equivalence a reader.
An equivalence lists everything that its reader can do on success, with the tokens that decide it.
Soundness and completeness for the grammar are read off these, without opening a reader. The tables
of the readers are those of the grammar. -/
namespace PathQuery

/-! ## Operators and words -/

theorem BinaryOp.level_eq_precedence (op : BinaryOp) : op.level = op.precedence := by
  cases op <;> rfl

theorem Coercion.name_eq_word (c : Coercion) : c.name = c.word := by
  cases c <;> rfl

theorem Method.name_eq_word (m : Method) : m.name = m.word := by
  cases m <;> rfl

theorem BinaryOp.ofSymbol?_eq_some {s : Symbol} {op : BinaryOp} :
    ofSymbol? s = some op ↔ s = op.symbol := by
  constructor
  · intro h
    cases s <;> cases h <;> rfl
  · rintro rfl
    cases op <;> rfl

theorem BinaryOp.ofToken?_eq_some {level : Nat} {t : Token} {op : BinaryOp} :
    ofToken? level t = some op ↔ t = .symbol op.symbol ∧ op.precedence = level := by
  cases t <;> simp [ofToken?, ofSymbol?_eq_some, level_eq_precedence]

theorem BinaryOp.symbol_inj {op op' : BinaryOp} : op.symbol = op'.symbol ↔ op = op' := by
  rw [← ofSymbol?_eq_some, ofSymbol?_eq_some.mpr rfl]
  simp

/-- Either no operator of a level comes next, or one does. -/
theorem BinaryOp.next (level : Nat) (ts : List Token) :
    (∀ t ∈ ts.head?, ofToken? level t = none) ∨
      ∃ op mid, op.precedence = level ∧ ts = .symbol (symbol op) :: mid := by
  cases ts with
  | nil => simp
  | cons t mid =>
    cases ht : ofToken? level t with
    | none => simp [ht]
    | some op =>
      obtain ⟨rfl, hop⟩ := ofToken?_eq_some.mp ht
      exact .inr ⟨op, mid, hop, rfl⟩

theorem Coercion.ofName?_eq_some {s : String} {c : Coercion} : ofName? s = some c ↔ s = c.word := by
  constructor
  · intro h
    have := List.find?_some h
    simp_all [name_eq_word]
  · rintro rfl
    cases c <;> rfl

theorem Method.ofName?_eq_some {s : String} {m : Method} : ofName? s = some m ↔ s = m.word := by
  constructor
  · intro h
    have := List.find?_some h
    simp_all [name_eq_word]
  · rintro rfl
    cases m <;> rfl

@[simp] theorem Coercion.word_inj {c d : Coercion} : c.word = d.word ↔ c = d := by
  cases c <;> cases d <;> decide

@[simp] theorem Method.word_inj {m n : Method} : m.word = n.word ↔ m = n := by
  cases m <;> cases n <;> decide

namespace Literal

@[simp] theorem symbol_ne_token (s : Symbol) (l : Literal) : .symbol s ≠ l.token := by
  unfold token
  split <;> simp

@[simp] theorem token_ne_symbol (s : Symbol) (l : Literal) : l.token ≠ .symbol s :=
  (symbol_ne_token s l).symm

@[simp] theorem number_eq_token {d : Double} {l : Literal} :
    .number d = l.token ↔ l = .number d := by
  unfold token
  split <;> simp [eq_comm]

@[simp] theorem string_eq_token {s : String} {l : Literal} :
    .string s = l.token ↔ l = .string s := by
  unfold token
  split <;> simp [eq_comm]

@[simp] theorem identifier_eq_token {s : String} {l : Literal} :
    .identifier s = l.token ↔ ofName? s = some l := by
  unfold token ofName?
  constructor
  · intro h
    split at h <;> cases h <;> rfl
  · intro h
    split at h
    next hs => cases h; rw [hs]
    split at h
    next hs => cases h; rw [hs]
    split at h
    next hs => cases h; rw [hs]
    cases h

@[simp] theorem token_inj {l l' : Literal} : l.token = l'.token ↔ l = l' := by
  constructor
  · intro h
    cases l with
    | string s => exact (string_eq_token.mp h).symm
    | number d => exact (number_eq_token.mp h).symm
    | bool b => cases b <;> exact Option.some.inj (identifier_eq_token.mp h)
    | null => exact Option.some.inj (identifier_eq_token.mp h)
  · rintro rfl
    rfl

@[simp] theorem ofName?_coercion (c : Coercion) : ofName? c.word = none := by
  cases c <;> rfl

end Literal

namespace Expr

variable {ts rest : List Token} {e : Expr}

theorem readAt_of_lt {level : Nat} (h : level < 5) :
    Reads (readAt level ts) e rest ↔ ∃ first mid, Reads (readAt (level + 1) ts) first mid ∧
      Reads (readOperators level first mid) e rest := by
  rw [readAt, if_pos h]
  simp

theorem readAt_five : readAt 5 ts = readUnary ts := by
  rw [readAt, if_neg (by decide)]

/-- Without a further operator the left operand is the result. -/
theorem readOperators_of_none {level : Nat} {lhs : Expr}
    (h : ∀ t ∈ ts.head?, BinaryOp.ofToken? level t = none) :
    Reads (readOperators level lhs ts) e rest ↔ lhs = e ∧ ts = rest := by
  cases ts with
  | nil =>
    rw [readOperators]
    simp
  | cons t ts =>
    rw [readOperators]
    simp [h t rfl]

theorem readOperators_symbol {level : Nat} {lhs : Expr} {op : BinaryOp} (h : op.precedence = level) :
    Reads (readOperators level lhs (.symbol op.symbol :: ts)) e rest ↔
      ∃ rhs mid, Reads (readAt (level + 1) ts) rhs mid ∧
        if level = 2 then .binary op lhs rhs = e ∧ mid = rest
        else Reads (readOperators level (.binary op lhs rhs) mid) e rest := by
  have ht : BinaryOp.ofToken? level (.symbol op.symbol) = some op :=
    BinaryOp.ofToken?_eq_some.mpr ⟨rfl, h⟩
  rw [readOperators, ht]
  by_cases hl : level = 2 <;> simp [hl, BinaryOp.comparisonLevel, and_comm]

/-- An operand starts with none of the prefix operators. -/
theorem not_reads_readPrimary {s : Symbol} (hs : s = .minus ∨ s = .not ∨ s = .mapOpen) :
    ¬ Reads (readPrimary (.symbol s :: ts)) e rest := by
  rcases hs with rfl | rfl | rfl <;> rw [readPrimary] <;> simp

theorem readUnary_iff :
    Reads (readUnary ts) e rest ↔
      (∃ arg mid, ts = .symbol .minus :: mid ∧ .unary .neg arg = e ∧
        Reads (readUnary mid) arg rest) ∨
      (∃ arg mid, ts = .symbol .not :: mid ∧ .unary .not arg = e ∧
        Reads (readUnary mid) arg rest) ∨
      (∃ arg mid, ts = .symbol .mapOpen :: mid ∧ .unary .not arg = e ∧
        Reads (readAt 0 mid) arg (.symbol .parenClose :: rest)) ∨
      (∃ target mid, Reads (readPrimary ts) target mid ∧
        Reads (readAccessors target mid) e rest) := by
  rw [readUnary.eq_def]
  split
  next => simp [not_reads_readPrimary]
  next => simp [not_reads_readPrimary]
  next => simp [not_reads_readPrimary]
  next h1 h2 h3 =>
    have hn : (∀ mid, ts ≠ .symbol .minus :: mid) ∧ (∀ mid, ts ≠ .symbol .not :: mid) ∧
        ∀ mid, ts ≠ .symbol .mapOpen :: mid := ⟨h1, h2, h3⟩
    simp [hn]

theorem readPrimary_iff :
    Reads (readPrimary ts) e rest ↔
      (ts = .symbol .current :: rest ∧ .current = e) ∨
      (ts = .symbol .root :: rest ∧ .root = e) ∨
      (∃ l, ts = Literal.token l :: rest ∧ .literal l = e) ∨
      (∃ c arg mid, ts = .identifier (Coercion.word c) :: .symbol .parenOpen :: mid ∧
        .coerce c arg = e ∧ Reads (readAt 0 mid) arg (.symbol .parenClose :: rest)) ∨
      (∃ mid, ts = .symbol .parenOpen :: mid ∧
        Reads (readAt 0 mid) e (.symbol .parenClose :: rest)) := by
  rw [readPrimary.eq_def]
  split
  next => simp [and_comm]
  next => simp [and_comm]
  next => simp [and_comm]
  next => simp [and_comm]
  next name ts =>
    split
    next _ _ l hl =>
      have hc : ∀ c : Coercion, name ≠ c.word := by
        rintro c rfl
        simp at hl
      simp [hl, hc, and_comm]
    next _ _ c hl hc =>
      rw [Coercion.ofName?_eq_some] at hc
      subst hc
      split
      next => simp
      next hn =>
        have hn : ∀ mid, ts ≠ .symbol .parenOpen :: mid := hn
        simp [hl, hn]
    next hl hc => simp [hl, ← Coercion.ofName?_eq_some, hc]
  next => simp
  next h1 h2 h3 h4 h5 h6 =>
    simp only [Reads.not_unexpected, false_iff]
    rintro (⟨rfl, _⟩ | ⟨rfl, _⟩ | ⟨l, rfl, _⟩ | ⟨_, _, _, rfl, _⟩ | ⟨_, rfl, _⟩)
    · exact h1 _ rfl
    · exact h2 _ rfl
    · cases l with
      | string s => exact h4 _ _ rfl
      | number d => exact h3 _ _ rfl
      | bool b => cases b <;> exact h5 _ _ rfl
      | null => exact h5 _ _ rfl
    · exact h5 _ _ rfl
    · exact h6 _ rfl

theorem readAccessors_iff {target : Expr} :
    Reads (readAccessors target ts) e rest ↔
      (∃ name mid, ts = .symbol .dot :: .identifier name :: mid ∧
        (∀ more, mid ≠ .symbol .parenOpen :: more) ∧
        Reads (readAccessors (.property target name) mid) e rest) ∨
      (∃ m args mid after,
        ts = .symbol .dot :: .identifier (Method.word m) :: .symbol .parenOpen :: mid ∧
        Reads (readArguments mid) args after ∧
        Reads (readAccessors (.call target m args) after) e rest) ∨
      (∃ index mid after, ts = .symbol .bracketOpen :: mid ∧
        Reads (readAt 0 mid) index (.symbol .bracketClose :: after) ∧
        Reads (readAccessors (.element target index) after) e rest) ∨
      ((∀ mid, ts ≠ .symbol .dot :: mid) ∧ (∀ mid, ts ≠ .symbol .bracketOpen :: mid) ∧
        target = e ∧ ts = rest) := by
  rw [readAccessors.eq_def]
  split
  next name mid =>
    cases hm : Method.ofName? name with
    | none => simp [← Method.ofName?_eq_some, hm]
    | some m =>
      rw [Method.ofName?_eq_some] at hm
      subst hm
      simp
  next name mid hn =>
    have hn : ∀ more, mid ≠ .symbol .parenOpen :: more := hn
    simp [hn]
  next mid h1 h2 =>
    have h2 : ∀ name more, mid ≠ .identifier name :: more := h2
    simp [h2]
  next => simp
  next h1 h2 h3 h4 =>
    have h3 : ∀ mid, ts ≠ .symbol .dot :: mid := h3
    have h4 : ∀ mid, ts ≠ .symbol .bracketOpen :: mid := h4
    simp [h3, h4]

theorem startsWith_of_readPrimary (h : Reads (readPrimary ts) e rest) :
    ∃ t mid, ts = t :: mid ∧ startsWith t = true := by
  rcases readPrimary_iff.mp h with ⟨rfl, _⟩ | ⟨rfl, _⟩ | ⟨l, rfl, _⟩ | ⟨_, _, _, rfl, _⟩ |
    ⟨_, rfl, _⟩
  · exact ⟨_, _, rfl, rfl⟩
  · exact ⟨_, _, rfl, rfl⟩
  · refine ⟨_, _, rfl, ?_⟩
    unfold Literal.token
    split <;> rfl
  · exact ⟨_, _, rfl, rfl⟩
  · exact ⟨_, _, rfl, rfl⟩

theorem startsWith_of_readUnary (h : Reads (readUnary ts) e rest) :
    ∃ t mid, ts = t :: mid ∧ startsWith t = true := by
  rcases readUnary_iff.mp h with ⟨_, _, rfl, _⟩ | ⟨_, _, rfl, _⟩ | ⟨_, _, rfl, _⟩ | ⟨_, _, hp, _⟩
  · exact ⟨_, _, rfl, rfl⟩
  · exact ⟨_, _, rfl, rfl⟩
  · exact ⟨_, _, rfl, rfl⟩
  · exact startsWith_of_readPrimary hp

/-- An expression starts with a token by which a call knows that an argument follows. -/
theorem startsWith_of_readAt (k : Nat) {level : Nat} (hk : level + k = 5)
    (h : Reads (readAt level ts) e rest) : ∃ t mid, ts = t :: mid ∧ startsWith t = true := by
  induction k generalizing level e rest with
  | zero =>
    obtain rfl : level = 5 := hk
    rw [readAt_five] at h
    exact startsWith_of_readUnary h
  | succ k ih =>
    obtain ⟨_, _, hf, _⟩ := (readAt_of_lt (by omega)).mp h
    exact ih (by omega) hf

theorem startsWith_of_reads {t : Token} {mid : List Token}
    (h : Reads (readAt 0 (t :: mid)) e rest) : startsWith t = true := by
  obtain ⟨_, _, heq, hs⟩ := startsWith_of_readAt 5 rfl h
  cases heq
  exact hs

theorem not_reads_nil : ¬ Reads (readAt 0 []) e rest := by
  intro h
  obtain ⟨_, _, heq, _⟩ := startsWith_of_readAt 5 rfl h
  cases heq

theorem readMoreArguments_iff {args : List Expr} :
    Reads (readMoreArguments ts) args rest ↔
      (∃ next mid after, ts = .symbol .comma :: mid ∧ Reads (readAt 0 mid) next after ∧
        ∃ more, next :: more = args ∧ Reads (readMoreArguments after) more rest) ∨
      (ts = .symbol .parenClose :: rest ∧ [] = args) := by
  rw [readMoreArguments.eq_def]
  split
  next t mid =>
    split
    next => simp
    next ht =>
      have hn : ∀ e rest, ¬ Reads (readAt 0 (t :: mid)) e rest :=
        fun _ _ h => ht (startsWith_of_reads h)
      simp [hn]
  next => simp [and_comm]
  next h1 h2 =>
    simp only [Reads.not_unexpected, false_iff]
    rintro (⟨_, mid, _, rfl, hr, _⟩ | ⟨rfl, _⟩)
    · cases mid with
      | nil => exact not_reads_nil hr
      | cons t mid => exact h1 _ _ rfl
    · exact h2 _ rfl

theorem readArguments_iff {args : List Expr} :
    Reads (readArguments ts) args rest ↔
      (∃ first mid, Reads (readAt 0 ts) first mid ∧
        ∃ more, first :: more = args ∧ Reads (readMoreArguments mid) more rest) ∨
      (ts = .symbol .parenClose :: rest ∧ [] = args) := by
  rw [readArguments.eq_def]
  split
  next => simp [not_reads_nil]
  next t mid =>
    split
    next ht =>
      have hne : t ≠ .symbol .parenClose := by
        rintro rfl
        cases ht
      simp [hne]
    next ht =>
      have hn : ∀ e rest, ¬ Reads (readAt 0 (t :: mid)) e rest :=
        fun _ _ h => ht (startsWith_of_reads h)
      split
      next heq =>
        subst heq
        simp [hn, and_comm]
      next hne => simp [hne, hn]

end Expr
end PathQuery
