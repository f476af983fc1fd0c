import PathQuery.Proofs.Grammar.Failures
import PathQuery.Proofs.Rules.Grammar

/-! Rules that do what readers do.
A reader chooses by the next token and never goes back. A rule carries a reader out if both have the
same results and blame the same kinds, and then it is known from the first token alone whether the
rule applies. Operators and comparisons carry their readers out where their operands do. -/
namespace PathQuery.Rule

open PathQuery.Expr

variable {α : Type} {n : Nat} {ts rest : List Token} {e : Expr} {k : Token.Kind}

/-- The rule does what the reader does. Its failure is final if it starts with the first token. -/
structure Carries (p : Rule α) (starts : Token → Bool) (ts : List Token)
    (x : Except Token.Kind (Reading α n)) : Prop where
  reads : ∀ {a rest}, Reads x a rest → p ts = .ok (a, rest)
  fails : ∀ {k}, Fails x k → p ts = .error (if ts.head?.any starts then .final k else .soft k)

theorem any_head?_eq_false {starts : Token → Bool} (h : ∀ t ∈ ts.head?, starts t = false) :
    ts.head?.any starts = false := by
  cases ts with
  | nil => rfl
  | cons t ts => exact h t rfl

namespace Carries

variable {p : Rule α} {starts : Token → Bool} {x : Except Token.Kind (Reading α n)} {a : α}

/-- Two rules that do what a reader does do the same. -/
theorem unique {q : Rule α} (h : Carries p starts ts x) (h' : Carries q starts ts x) :
    p ts = q ts := by
  cases hx : x with
  | ok r =>
    have hr : Reads x r.value r.rest := ⟨r.shorter, hx⟩
    exact (h.reads hr).trans (h'.reads hr).symm
  | error k => exact (h.fails hx).trans (h'.fails hx).symm

theorem commit_reads (h : Carries p starts ts x) (hx : Reads x a rest) :
    commit p ts = .ok (a, rest) := by
  simp [commit, h.reads hx]

theorem commit_fails (h : Carries p starts ts x) (hx : Fails x k) :
    commit p ts = .error (.final k) := by
  rw [commit, h.fails hx]
  cases ts.head?.any starts <;> rfl

theorem fails_final (h : Carries p starts ts x) (hx : Fails x k)
    (hs : ∃ t ∈ ts.head?, starts t = true) : p ts = .error (.final k) := by
  rw [h.fails hx, if_pos ((Option.any_eq_true _ _).mpr hs)]

theorem fails_soft (h : Carries p starts ts x) (hx : Fails x k)
    (hs : ∀ t ∈ ts.head?, starts t = false) : p ts = .error (.soft k) := by
  rw [h.fails hx, any_head?_eq_false hs]
  rfl

theorem enclosed_reads {opening closing : Symbol} (h : Carries p starts ts x)
    (hx : Reads x a (.symbol closing :: rest)) :
    enclosed opening p closing (.symbol opening :: ts) = .ok (a, rest) :=
  enclosed_of_ok (h.reads hx)

/-- The rule fails, or something else than the closing symbol follows. -/
theorem enclosed_fails {opening closing : Symbol} (h : Carries p starts ts x)
    (hx : Fails x k ∨ ∃ a rest, rest.head? ≠ some (.symbol closing) ∧ Reads x a rest ∧
      Token.nextKind rest = k) :
    enclosed opening p closing (.symbol opening :: ts) = .error (.final k) := by
  rcases hx with hx | ⟨a, rest, hrest, hr, rfl⟩
  · have hp := h.fails hx
    split at hp
    · exact enclosed_of_final hp
    · exact enclosed_of_soft hp
  · exact enclosed_of_open (h.reads hr) hrest

end Carries

/-- The rule reads expressions of a level from fewer than `m` tokens. -/
def CarriesBelow (m level : Nat) (p : Rule Expr) : Prop :=
  ∀ ts, ts.length < m → Carries p startsWith ts (readAt level ts)

variable {operand : Rule Expr} {m : Nat}

/-! ## One operator -/

theorem operation_of_none (h : ∀ t ∈ ts.head?, BinaryOp.ofToken? n t = none) :
    operation n operand ts = .error (.soft (Token.nextKind ts)) := by
  simp [operation, accept_of_none h]

theorem accept_operator {op : BinaryOp} (hop : op.precedence = n) :
    accept (BinaryOp.ofToken? n) (.symbol op.symbol :: ts) = .ok (op, ts) :=
  accept_of_some (BinaryOp.ofToken?_eq_some.mpr ⟨rfl, hop⟩)

theorem operation_reads {op : BinaryOp} (hop : op.precedence = n)
    (h : Carries operand startsWith ts (readAt (n + 1) ts))
    (hr : Reads (readAt (n + 1) ts) e rest) :
    operation n operand (.symbol op.symbol :: ts) = .ok ((op, e), rest) := by
  simp [operation, accept_operator hop, h.commit_reads hr]

theorem operation_fails {op : BinaryOp} (hop : op.precedence = n)
    (h : Carries operand startsWith ts (readAt (n + 1) ts)) (hf : Fails (readAt (n + 1) ts) k) :
    operation n operand (.symbol op.symbol :: ts) = .error (.final k) := by
  simp [operation, accept_operator hop, h.commit_fails hf]

/-! ## Operators of one level -/

theorem operations_read {ts rest : List Token} {lhs e : Expr} (hn : n ≠ 2)
    (h : CarriesBelow m (n + 1) operand) (hm : ts.length ≤ m)
    (hr : Reads (readOperators n lhs ts) e rest) :
    ∃ more, repeated (operation n operand) ts = .ok (more, rest) ∧
      more.foldl (fun lhs o => .binary o.1 lhs o.2) lhs = e := by
  rcases BinaryOp.next n ts with hnone | ⟨op, mid, hop, rfl⟩
  · obtain ⟨rfl, rfl⟩ := (readOperators_of_none hnone).mp hr
    exact ⟨[], repeated_of_soft (operation_of_none hnone), rfl⟩
  · rw [List.length_cons] at hm
    obtain ⟨rhs, after, hrhs, ho⟩ := (readOperators_symbol hop).mp hr
    rw [if_neg hn] at ho
    have hafter := hrhs.shorter
    obtain ⟨more, hmore, he⟩ := operations_read hn h (by omega) ho
    have hfirst := operation_reads hop (h mid (by omega)) hrhs
    exact ⟨(op, rhs) :: more,
      repeated_cons hfirst (by simp only [List.length_cons]; omega) hmore, he⟩
termination_by ts.length
decreasing_by subst_vars; simp only [List.length_cons]; omega

theorem operations_fail {ts : List Token} {lhs : Expr} (hn : n ≠ 2)
    (h : CarriesBelow m (n + 1) operand) (hm : ts.length ≤ m)
    (hf : Fails (readOperators n lhs ts) k) :
    repeated (operation n operand) ts = .error (.final k) := by
  rcases BinaryOp.next n ts with hnone | ⟨op, mid, hop, rfl⟩
  · exact absurd hf (not_fails_readOperators hnone)
  · rw [List.length_cons] at hm
    have hmid := h mid (by omega)
    rcases (readOperators_fails hop).mp hf with hf | ⟨-, rhs, after, hrhs, hf⟩
    · exact repeated_of_final (operation_fails hop hmid hf)
    · have hafter := hrhs.shorter
      exact repeated_later (operation_reads hop hmid hrhs) (by simp only [List.length_cons]; omega)
        (operations_fail hn h (by omega) hf)
termination_by ts.length
decreasing_by subst_vars; simp only [List.length_cons]; omega

/-- What is read as an expression starts like one. -/
theorem any_startsWith {level : Nat} (hl : level ≤ 5) (hr : Reads (readAt level ts) e rest) :
    ts.head?.any startsWith = true := by
  obtain ⟨t, mid, rfl, ht⟩ := startsWith_of_readAt (5 - level) (by omega) hr
  exact ht

theorem carries_chain (hlt : n < 5) (hn : n ≠ 2)
    (hfirst : Carries operand startsWith ts (readAt (n + 1) ts))
    (h : CarriesBelow ts.length (n + 1) operand) :
    Carries (chain n operand) startsWith ts (readAt n ts) where
  reads hr := by
    obtain ⟨first, mid, hf, ho⟩ := (readAt_of_lt hlt).mp hr
    obtain ⟨more, hmore, rfl⟩ := operations_read hn h (Nat.le_of_lt hf.shorter) ho
    simp [chain, hfirst.reads hf, hmore]
  fails hf := by
    rcases (readAt_fails hlt).mp hf with hf | ⟨first, mid, hr, hf⟩
    · simp [chain, hfirst.fails hf]
    · have hmore := operations_fail hn h (Nat.le_of_lt hr.shorter) hf
      simp [chain, hfirst.reads hr, hmore, any_startsWith hlt hr]

theorem carries_comparison (hlhs : Carries operand startsWith ts (readAt 3 ts))
    (h : CarriesBelow ts.length 3 operand) :
    Carries (comparison operand) startsWith ts (readAt 2 ts) where
  reads hr := by
    obtain ⟨lhs, mid, hl, ho⟩ := (readAt_of_lt (by decide)).mp hr
    rcases BinaryOp.next 2 mid with hnone | ⟨op, mid, hop, rfl⟩
    · obtain ⟨rfl, rfl⟩ := (readOperators_of_none hnone).mp ho
      have hnone : operation 2 operand _ = _ := operation_of_none hnone
      simp [comparison, optional, hlhs.reads hl, BinaryOp.comparisonLevel, hnone]
    · obtain ⟨rhs, after, hrhs, rfl, rfl⟩ := (readOperators_symbol hop).mp ho
      have hmid := operation_reads hop (h mid (Nat.lt_of_succ_lt hl.shorter)) hrhs
      simp [comparison, optional, hlhs.reads hl, BinaryOp.comparisonLevel, hmid]
  fails hf := by
    rcases (readAt_fails (by decide)).mp hf with hf | ⟨lhs, mid, hl, hf⟩
    · simp [comparison, hlhs.fails hf]
    · rcases BinaryOp.next 2 mid with hnone | ⟨op, mid, hop, rfl⟩
      · exact absurd hf (not_fails_readOperators hnone)
      · rcases (readOperators_fails hop).mp hf with hf | ⟨hne, -⟩
        · have hmid := operation_fails hop (h mid (Nat.lt_of_succ_lt hl.shorter)) hf
          simp [comparison, optional, hlhs.reads hl, BinaryOp.comparisonLevel, hmid,
            any_startsWith (by decide) hl]
        · exact absurd rfl hne

end PathQuery.Rule
