import PathQuery.Proofs.Failing
import PathQuery.Proofs.Grammar.Readers

/-! How each reader of expressions fails, one equivalence a reader.
Beside the equivalences for success these list the other half of what a reader does: the tokens at
which it gives up by itself, and the parts whose failure is its own. -/
namespace PathQuery.Expr

variable {ts : List Token} {k : Token.Kind}

/-- An expression up to a closing symbol fails: in the expression, or because something else follows
it. -/
def FailsUpTo (close : Symbol) (ts : List Token) (k : Token.Kind) : Prop :=
  Fails (readAt 0 ts) k ∨ ∃ e rest, rest.head? ≠ some (.symbol close) ∧
    Reads (readAt 0 ts) e rest ∧ Token.nextKind rest = k

theorem readAt_fails {level : Nat} (h : level < 5) :
    Fails (readAt level ts) k ↔ Fails (readAt (level + 1) ts) k ∨
      ∃ first mid, Reads (readAt (level + 1) ts) first mid ∧
        Fails (readOperators level first mid) k := by
  rw [readAt, if_pos h]
  simp

theorem not_fails_readOperators {level : Nat} {lhs : Expr}
    (h : ∀ t ∈ ts.head?, BinaryOp.ofToken? level t = none) :
    ¬ Fails (readOperators level lhs ts) k := by
  cases ts with
  | nil =>
    rw [readOperators]
    simp
  | cons t ts =>
    rw [readOperators]
    simp [h t rfl]

theorem readOperators_fails {level : Nat} {lhs : Expr} {op : BinaryOp} (h : op.precedence = level) :
    Fails (readOperators level lhs (.symbol op.symbol :: ts)) k ↔
      Fails (readAt (level + 1) ts) k ∨
      (level ≠ 2 ∧ ∃ rhs mid, Reads (readAt (level + 1) ts) rhs mid ∧
        Fails (readOperators level (.binary op lhs rhs) mid) k) := by
  have ht : BinaryOp.ofToken? level (.symbol op.symbol) = some op :=
    BinaryOp.ofToken?_eq_some.mpr ⟨rfl, h⟩
  rw [readOperators, ht]
  by_cases hl : level = 2 <;> simp [hl, BinaryOp.comparisonLevel]

theorem readUnary_fails :
    Fails (readUnary ts) k ↔
      (∃ mid, ts = .symbol .minus :: mid ∧ Fails (readUnary mid) k) ∨
      (∃ mid, ts = .symbol .not :: mid ∧ Fails (readUnary mid) k) ∨
      (∃ mid, ts = .symbol .mapOpen :: mid ∧ FailsUpTo .parenClose mid k) ∨
      ((∀ s ∈ [Symbol.minus, .not, .mapOpen], ts.head? ≠ some (.symbol s)) ∧
        (Fails (readPrimary ts) k ∨ ∃ target mid, Reads (readPrimary ts) target mid ∧
          Fails (readAccessors target mid) k)) := by
  rw [readUnary.eq_def]
  split
  next => simp
  next => simp
  next => simp [FailsUpTo]
  next h1 h2 h3 =>
    have h1 : ∀ mid, ts ≠ .symbol .minus :: mid := h1
    have h2 : ∀ mid, ts ≠ .symbol .not :: mid := h2
    have h3 : ∀ mid, ts ≠ .symbol .mapOpen :: mid := h3
    simp [h1, h2, h3, List.head?_eq_some_iff]

/-- Whether an operand can start with a token; of the names these are the literals and the
coercions. -/
def startsPrimary : Token → Bool
  | .identifier name => (Literal.ofName? name).isSome || (Coercion.ofName? name).isSome
  | .string _ => true
  | .number _ => true
  | .symbol .current => true
  | .symbol .root => true
  | .symbol .parenOpen => true
  | _ => false

theorem readPrimary_fails :
    Fails (readPrimary ts) k ↔
      (∃ c mid, ts = .identifier (Coercion.word c) :: mid ∧
        mid.head? ≠ some (.symbol .parenOpen) ∧ Token.nextKind mid = k) ∨
      (∃ c mid, ts = .identifier (Coercion.word c) :: .symbol .parenOpen :: mid ∧
        FailsUpTo .parenClose mid k) ∨
      (∃ mid, ts = .symbol .parenOpen :: mid ∧ FailsUpTo .parenClose mid k) ∨
      ((∀ t ∈ ts.head?, startsPrimary t = false) ∧ Token.nextKind ts = k) := by
  rw [readPrimary.eq_def]
  split
  next => simp [startsPrimary]
  next => simp [startsPrimary]
  next => simp [startsPrimary]
  next => simp [startsPrimary]
  next name ts =>
    split
    next _ _ l hl =>
      have hc : ∀ c : Coercion, name ≠ c.word := by
        rintro c rfl
        simp at hl
      simp [startsPrimary, hl, hc]
    next _ _ c hl hc =>
      have hs : startsPrimary (.identifier name) = true := by simp [startsPrimary, hc]
      rw [Coercion.ofName?_eq_some] at hc
      subst hc
      split
      next => simp [hs, FailsUpTo]
      next hn =>
        have hn : ∀ mid, ts ≠ .symbol .parenOpen :: mid := hn
        simp [hs, hn, List.head?_eq_some_iff]
    next hl hc =>
      simp [startsPrimary, hl, ← Coercion.ofName?_eq_some, hc, Token.nextKind, Token.kind]
  next => simp [startsPrimary, FailsUpTo]
  next h1 h2 h3 h4 h5 h6 =>
    have hn : ∀ t ∈ ts.head?, startsPrimary t = false := by
      intro t ht
      obtain ⟨mid, rfl⟩ := List.head?_eq_some_iff.mp ht
      unfold startsPrimary
      split
      next name => exact absurd rfl (h5 name mid)
      next s => exact absurd rfl (h4 s mid)
      next d => exact absurd rfl (h3 d mid)
      next => exact absurd rfl (h1 mid)
      next => exact absurd rfl (h2 mid)
      next => exact absurd rfl (h6 mid)
      next => rfl
    have hi : ∀ name mid, ts ≠ .identifier name :: mid := h5
    have hp : ∀ mid, ts ≠ .symbol .parenOpen :: mid := h6
    simpa [hi, hp] using fun _ => hn

theorem readAccessors_fails {target : Expr} :
    Fails (readAccessors target ts) k ↔
      (∃ mid, ts = .symbol .dot :: mid ∧ (∀ name, mid.head? ≠ some (.identifier name)) ∧
        Token.nextKind mid = k) ∨
      (∃ name mid, ts = .symbol .dot :: .identifier name :: mid ∧
        mid.head? ≠ some (.symbol .parenOpen) ∧
        Fails (readAccessors (.property target name) mid) k) ∨
      (∃ name mid, ts = .symbol .dot :: .identifier name :: .symbol .parenOpen :: mid ∧
        (Fails (readArguments mid) k ∨ ∃ args after, Reads (readArguments mid) args after ∧
          ((Method.ofName? name = none ∧ .identifier = k) ∨
            ∃ m, Method.ofName? name = some m ∧
              Fails (readAccessors (.call target m args) after) k))) ∨
      (∃ mid, ts = .symbol .bracketOpen :: mid ∧ (FailsUpTo .bracketClose mid k ∨
        ∃ index after, Reads (readAt 0 mid) index (.symbol .bracketClose :: after) ∧
          Fails (readAccessors (.element target index) after) k)) := by
  rw [readAccessors.eq_def]
  split
  next name mid =>
    cases hm : Method.ofName? name with
    | none => simp [hm]
    | some m => simp [hm]
  next name mid hn =>
    have hn : ∀ more, mid ≠ .symbol .parenOpen :: more := hn
    simp [hn, List.head?_eq_some_iff]
  next mid h1 h2 =>
    have h2 : ∀ name more, mid ≠ .identifier name :: more := h2
    simp [h2, List.head?_eq_some_iff]
  next => simp [FailsUpTo, and_or_left, exists_or, or_assoc, and_left_comm]
  next h1 h2 h3 h4 =>
    have h3 : ∀ mid, ts ≠ .symbol .dot :: mid := h3
    have h4 : ∀ mid, ts ≠ .symbol .bracketOpen :: mid := h4
    simp [h3, h4]

theorem readArguments_fails :
    Fails (readArguments ts) k ↔
      ((∃ t ∈ ts.head?, startsWith t = true) ∧ (Fails (readAt 0 ts) k ∨
        ∃ first mid, Reads (readAt 0 ts) first mid ∧ Fails (readMoreArguments mid) k)) ∨
      ((∀ t ∈ ts.head?, startsWith t = false) ∧ ts.head? ≠ some (.symbol .parenClose) ∧
        Token.nextKind ts = k) := by
  rw [readArguments.eq_def]
  split
  next => simp [Token.nextKind]
  next t mid =>
    cases ht : startsWith t with
    | true => simp [ht]
    | false =>
      by_cases hp : t = .symbol .parenClose
      · subst hp
        simp [ht]
      · simp [ht, hp, Token.nextKind]

theorem readMoreArguments_fails :
    Fails (readMoreArguments ts) k ↔
      (∃ mid, ts = .symbol .comma :: mid ∧ (∃ t ∈ mid.head?, startsWith t = true) ∧
        (Fails (readAt 0 mid) k ∨
          ∃ next after, Reads (readAt 0 mid) next after ∧ Fails (readMoreArguments after) k)) ∨
      (∃ mid, ts = .symbol .comma :: mid ∧ (∀ t ∈ mid.head?, startsWith t = false) ∧
        .symbol .comma = k) ∨
      (ts.head? ≠ some (.symbol .comma) ∧ ts.head? ≠ some (.symbol .parenClose) ∧
        Token.nextKind ts = k) := by
  rw [readMoreArguments.eq_def]
  split
  next t mid =>
    cases ht : startsWith t with
    | true => simp [ht]
    | false => simp [ht]
  next => simp
  next h1 h2 =>
    have h1 : ∀ t mid, ts ≠ .symbol .comma :: t :: mid := h1
    have h2 : ∀ mid, ts ≠ .symbol .parenClose :: mid := h2
    cases ts with
    | nil => simp
    | cons t mid =>
      by_cases ht : t = .symbol .comma
      · subst ht
        obtain rfl : mid = [] := by
          cases mid with
          | nil => rfl
          | cons t mid => exact absurd rfl (h1 t mid)
        simp [Token.nextKind, Token.kind]
      · have hp : t ≠ .symbol .parenClose := by
          rintro rfl
          exact h2 mid rfl
        simp [ht, hp]

end PathQuery.Expr
