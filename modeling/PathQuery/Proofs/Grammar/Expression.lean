import PathQuery.Proofs.Grammar.Readers

/-! The readers of expressions and the grammar agree.
A reader reads a derivation whole and leaves what follows it, provided that what follows cannot go
on with the expression; and what a reader reads has a derivation, which it reads again wherever the
next token is the same. -/
namespace PathQuery.Grammar
open PathQuery.Expr

/-- Whether a token can go on with an expression whose operators have at least level `n`. -/
def continues (n : Nat) : Token → Bool
  | .symbol .dot => true
  | .symbol .bracketOpen => true
  | .symbol .parenOpen => true
  | .symbol s => (BinaryOp.ofSymbol? s).any fun op => n ≤ op.precedence
  | _ => false

/-- What follows an expression of level `n` does not belong to it. -/
def Stops (n : Nat) (rest : List Token) : Prop := ∀ t ∈ rest.head?, continues n t = false

variable {n : Nat} {rest : List Token}

@[simp] theorem stops_nil : Stops n [] := by
  simp [Stops]

@[simp] theorem stops_cons {t : Token} : Stops n (t :: rest) ↔ continues n t = false := by
  simp [Stops]

/-- What closes an expression or separates it from the next one does not go on with it. -/
@[simp] theorem continues_closing {s : Symbol} (h : s ∈ [.parenClose, .bracketClose, .comma]) :
    continues n (.symbol s) = false := by
  simp only [List.mem_cons, List.not_mem_nil, or_false] at h
  rcases h with rfl | rfl | rfl <;> rfl

theorem continues_symbol (op : BinaryOp) :
    continues n (.symbol op.symbol) = decide (n ≤ op.precedence) := by
  cases op <;> rfl

theorem continues_mono {m : Nat} (h : n ≤ m) {t : Token} (ht : continues n t = false) :
    continues m t = false := by
  cases t with
  | symbol s =>
    cases s <;> simp_all [continues, BinaryOp.ofSymbol?] <;> omega
  | _ => rfl

theorem Stops.mono {m : Nat} (h : n ≤ m) (hs : Stops n rest) : Stops m rest :=
  fun t ht => continues_mono h (hs t ht)

theorem Stops.ofToken?_eq_none (hs : Stops n rest) :
    ∀ t ∈ rest.head?, BinaryOp.ofToken? n t = none := by
  intro t ht
  cases ho : BinaryOp.ofToken? n t with
  | none => rfl
  | some op =>
    obtain ⟨rfl, rfl⟩ := BinaryOp.ofToken?_eq_some.mp ho
    have := hs _ ht
    simp [continues_symbol] at this

/-- The operators of a level stop its operands. -/
theorem stops_operators (more : Operators n) (hs : Stops n rest) :
    Stops (n + 1) (more.tokens ++ rest) := by
  cases more with
  | nil => exact hs.mono (Nat.le_succ n)
  | comparison op h hn operand => simp [Operators.tokens, continues_symbol, h]
  | cons op h hn operand more => simp [Operators.tokens, continues_symbol, h]

/-- Further arguments stop an argument. -/
theorem stops_moreArguments (args : MoreArguments) (hs : Stops n rest) :
    Stops n (args.tokens ++ rest) := by
  cases args with
  | nil => exact hs
  | cons next more => simp [MoreArguments.tokens]

/-- Accessors after a name do not turn it into a call. -/
theorem accessors_ne_call (a : Accessors) (hs : Stops n rest) (more : List Token) :
    a.tokens ++ rest ≠ .symbol .parenOpen :: more := by
  cases a <;> simp only [Accessors.tokens] <;> rintro h <;> cases h
  simp [continues] at hs

mutual

theorem reads_chain {n : Nat} : ∀ (c : Chain n) (rest : List Token), Stops n rest →
    Reads (readAt n (c.tokens ++ rest)) c.expr rest
  | .operands h first more, rest, hs => by
    rw [Chain.tokens, List.append_assoc, readAt_of_lt h]
    exact ⟨first.expr, more.tokens ++ rest, reads_chain first _ (stops_operators more hs),
      reads_operators more first.expr rest hs⟩
  | .unary u, rest, hs => by
    rw [Chain.tokens, readAt_five]
    exact reads_unary u rest hs

theorem reads_operators {n : Nat} : ∀ (more : Operators n) (lhs : Expr) (rest : List Token),
    Stops n rest → Reads (readOperators n lhs (more.tokens ++ rest)) (more.apply lhs) rest
  | .nil, lhs, rest, hs => (readOperators_of_none hs.ofToken?_eq_none).mpr ⟨rfl, rfl⟩
  | .comparison op h hn operand, lhs, rest, hs => by
    rw [Operators.tokens, List.cons_append, readOperators_symbol h]
    refine ⟨operand.expr, rest, reads_chain operand rest (hs.mono (Nat.le_succ n)), ?_⟩
    rw [if_pos hn]
    exact ⟨rfl, rfl⟩
  | .cons op h hn operand more, lhs, rest, hs => by
    rw [Operators.tokens, List.cons_append, List.append_assoc, readOperators_symbol h]
    refine ⟨operand.expr, _, reads_chain operand _ (stops_operators more hs), ?_⟩
    rw [if_neg hn]
    exact reads_operators more _ rest hs

theorem reads_unary : ∀ (u : Unary) (rest : List Token), Stops 5 rest →
    Reads (readUnary (u.tokens ++ rest)) u.expr rest
  | .minus operand, rest, hs =>
    readUnary_iff.mpr (.inl ⟨_, _, rfl, rfl, reads_unary operand rest hs⟩)
  | .not operand, rest, hs =>
    readUnary_iff.mpr (.inr (.inl ⟨_, _, rfl, rfl, reads_unary operand rest hs⟩))
  | .negated e, rest, hs => by
    have := reads_chain e (.symbol .parenClose :: rest) (by simp)
    refine readUnary_iff.mpr (.inr (.inr (.inl ⟨_, _, ?_, rfl, this⟩)))
    simp [Unary.tokens]
  | .access target accessors, rest, hs => by
    rw [Unary.tokens, List.append_assoc, readUnary_iff]
    exact .inr (.inr (.inr ⟨target.expr, _, reads_primary target _,
      reads_accessors accessors target.expr rest hs⟩))

theorem reads_primary : ∀ (p : Primary) (rest : List Token),
    Reads (readPrimary (p.tokens ++ rest)) p.expr rest
  | .current, rest => readPrimary_iff.mpr (.inl ⟨rfl, rfl⟩)
  | .root, rest => readPrimary_iff.mpr (.inr (.inl ⟨rfl, rfl⟩))
  | .literal l, rest => readPrimary_iff.mpr (.inr (.inr (.inl ⟨l, rfl, rfl⟩)))
  | .coerce c arg, rest => by
    have := reads_chain arg (.symbol .parenClose :: rest) (by simp)
    refine readPrimary_iff.mpr (.inr (.inr (.inr (.inl ⟨c, _, _, ?_, rfl, this⟩))))
    simp [Primary.tokens]
  | .enclosed e, rest => by
    have := reads_chain e (.symbol .parenClose :: rest) (by simp)
    refine readPrimary_iff.mpr (.inr (.inr (.inr (.inr ⟨_, ?_, this⟩))))
    simp [Primary.tokens]

theorem reads_accessors : ∀ (a : Accessors) (target : Expr) (rest : List Token), Stops 5 rest →
    Reads (readAccessors target (a.tokens ++ rest)) (a.apply target) rest
  | .nil, target, rest, hs => by
    refine readAccessors_iff.mpr (.inr (.inr (.inr ⟨?_, ?_, rfl, rfl⟩)))
    · rintro mid rfl
      simp [continues] at hs
    · rintro mid rfl
      simp [continues] at hs
  | .property name more, target, rest, hs => by
    exact readAccessors_iff.mpr (.inl ⟨name, more.tokens ++ rest, rfl, accessors_ne_call more hs,
      reads_accessors more _ rest hs⟩)
  | .call method args more, target, rest, hs => by
    refine readAccessors_iff.mpr (.inr (.inl ⟨method, args.exprs,
      args.tokens ++ .symbol .parenClose :: (more.tokens ++ rest), _, ?_,
      reads_arguments args _, reads_accessors more _ rest hs⟩))
    simp [Accessors.tokens]
  | .element index more, target, rest, hs => by
    refine readAccessors_iff.mpr (.inr (.inr (.inl ⟨index.expr,
      index.tokens ++ .symbol .bracketClose :: (more.tokens ++ rest), _, ?_,
      reads_chain index _ (by simp), reads_accessors more _ rest hs⟩)))
    simp [Accessors.tokens]

theorem reads_arguments : ∀ (args : Arguments) (rest : List Token),
    Reads (readArguments (args.tokens ++ .symbol .parenClose :: rest)) args.exprs rest
  | .none, rest => readArguments_iff.mpr (.inr ⟨rfl, rfl⟩)
  | .some first more, rest => by
    refine readArguments_iff.mpr (.inl ⟨first.expr, more.tokens ++ .symbol .parenClose :: rest, ?_,
      _, rfl, reads_moreArguments more rest⟩)
    rw [Arguments.tokens, List.append_assoc]
    exact reads_chain first _ (stops_moreArguments more (by simp))

theorem reads_moreArguments : ∀ (args : MoreArguments) (rest : List Token),
    Reads (readMoreArguments (args.tokens ++ .symbol .parenClose :: rest)) args.exprs rest
  | .nil, rest => readMoreArguments_iff.mpr (.inr ⟨rfl, rfl⟩)
  | .cons next more, rest => by
    refine readMoreArguments_iff.mpr (.inl ⟨next.expr,
      next.tokens ++ (more.tokens ++ .symbol .parenClose :: rest), _, ?_,
      reads_chain next _ (stops_moreArguments more (by simp)), _, rfl,
      reads_moreArguments more rest⟩)
    simp [MoreArguments.tokens]

end

/-! ## What is read

It has a derivation. The readers look one token ahead, so that a derivation is read again before any
tokens that begin as those which it was read before; the readers that end with a closing symbol do
not even look at one. The recursion is that of the readers, with their measure. -/

theorem head?_append_congr {ts rest rest' : List Token} (h : rest'.head? = rest.head?) :
    (ts ++ rest').head? = (ts ++ rest).head? := by
  rw [List.head?_append, List.head?_append, h]

theorem ne_cons_congr {ts ts' : List Token} {t : Token} (h : ts'.head? = ts.head?)
    (hn : ∀ mid, ts ≠ t :: mid) (mid : List Token) : ts' ≠ t :: mid := by
  rintro rfl
  obtain ⟨mid', rfl⟩ := List.head?_eq_some_iff.mp h.symm
  exact hn mid' rfl

mutual

theorem lookahead_chain {n : Nat} (hn : n ≤ 5) {ts rest : List Token} {e : Expr}
    (h : Reads (readAt n ts) e rest) : ∃ c : Chain n, c.tokens ++ rest = ts ∧ c.expr = e ∧
      ∀ rest', rest'.head? = rest.head? → Reads (readAt n (c.tokens ++ rest')) e rest' := by
  by_cases hlt : n < 5
  · obtain ⟨lhs, mid, hf, ho⟩ := (readAt_of_lt hlt).mp h
    have := hf.shorter
    obtain ⟨first, rfl, rfl, hfirst⟩ := lookahead_chain hlt hf
    obtain ⟨more, rfl, rfl, hmore⟩ := lookahead_operators hlt ho
    refine ⟨.operands hlt first more, by simp [Chain.tokens], rfl, fun rest' hr => ?_⟩
    rw [Chain.tokens, List.append_assoc, readAt_of_lt hlt]
    exact ⟨first.expr, _, hfirst _ (head?_append_congr hr), hmore rest' hr⟩
  · obtain rfl : n = 5 := by omega
    rw [readAt_five] at h
    obtain ⟨u, rfl, rfl, hu⟩ := lookahead_unary h
    refine ⟨.unary u, rfl, rfl, fun rest' hr => ?_⟩
    rw [Chain.tokens, readAt_five]
    exact hu rest' hr
termination_by 10 * ts.length + (5 - n) + 3
decreasing_by all_goals omega

theorem lookahead_operators {n : Nat} (hn : n < 5) {ts rest : List Token} {lhs e : Expr}
    (h : Reads (readOperators n lhs ts) e rest) :
    ∃ more : Operators n, more.tokens ++ rest = ts ∧ more.apply lhs = e ∧
      ∀ rest', rest'.head? = rest.head? →
        Reads (readOperators n lhs (more.tokens ++ rest')) e rest' := by
  rcases BinaryOp.next n ts with ht | ⟨op, mid, hop, rfl⟩
  · obtain ⟨rfl, rfl⟩ := (readOperators_of_none ht).mp h
    refine ⟨.nil, rfl, rfl, fun rest' hr => (readOperators_of_none ?_).mpr ⟨rfl, rfl⟩⟩
    rw [Operators.tokens, List.nil_append, hr]
    exact ht
  · obtain ⟨rhs, after, hr, hc⟩ := (readOperators_symbol hop).mp h
    have := hr.shorter
    obtain ⟨operand, rfl, rfl, hoperand⟩ := lookahead_chain hn hr
    split at hc
    next hl =>
      obtain ⟨rfl, rfl⟩ := hc
      refine ⟨.comparison op hop hl operand, by simp [Operators.tokens], rfl, fun rest' hr => ?_⟩
      rw [Operators.tokens, List.cons_append, readOperators_symbol hop]
      exact ⟨operand.expr, rest', hoperand rest' hr, by rw [if_pos hl]; exact ⟨rfl, rfl⟩⟩
    next hl =>
      obtain ⟨more, rfl, rfl, hmore⟩ := lookahead_operators hn hc
      refine ⟨.cons op hop hl operand more, by simp [Operators.tokens], rfl, fun rest' hr => ?_⟩
      rw [Operators.tokens, List.cons_append, List.append_assoc, readOperators_symbol hop]
      exact ⟨operand.expr, _, hoperand _ (head?_append_congr hr),
        by rw [if_neg hl]; exact hmore rest' hr⟩
termination_by 10 * ts.length
decreasing_by all_goals subst_vars; first | omega | (simp only [List.length_cons]; omega)

theorem lookahead_unary {ts rest : List Token} {e : Expr} (h : Reads (readUnary ts) e rest) :
    ∃ u : Unary, u.tokens ++ rest = ts ∧ u.expr = e ∧
      ∀ rest', rest'.head? = rest.head? → Reads (readUnary (u.tokens ++ rest')) e rest' := by
  rcases readUnary_iff.mp h with ⟨arg, mid, rfl, rfl, ha⟩ | ⟨arg, mid, rfl, rfl, ha⟩ |
    ⟨arg, mid, rfl, rfl, ha⟩ | ⟨target, mid, ht, ha⟩
  · obtain ⟨operand, rfl, rfl, hoperand⟩ := lookahead_unary ha
    exact ⟨.minus operand, rfl, rfl, fun rest' hr =>
      readUnary_iff.mpr (.inl ⟨operand.expr, _, rfl, rfl, hoperand rest' hr⟩)⟩
  · obtain ⟨operand, rfl, rfl, hoperand⟩ := lookahead_unary ha
    exact ⟨.not operand, rfl, rfl, fun rest' hr =>
      readUnary_iff.mpr (.inr (.inl ⟨operand.expr, _, rfl, rfl, hoperand rest' hr⟩))⟩
  · obtain ⟨c, rfl, rfl, -⟩ := lookahead_chain (Nat.zero_le 5) ha
    refine ⟨.negated c, by simp [Unary.tokens], rfl, fun rest' _ => ?_⟩
    have := reads_chain c (.symbol .parenClose :: rest') (by simp)
    exact readUnary_iff.mpr (.inr (.inr (.inl ⟨c.expr, _, by simp [Unary.tokens], rfl, this⟩)))
  · have := ht.shorter
    obtain ⟨p, rfl, rfl⟩ := exists_primary ht
    obtain ⟨a, rfl, rfl, hmore⟩ := lookahead_accessors ha
    refine ⟨.access p a, by simp [Unary.tokens], rfl, fun rest' hr => ?_⟩
    rw [Unary.tokens, List.append_assoc, readUnary_iff]
    exact .inr (.inr (.inr ⟨p.expr, _, reads_primary p _, hmore rest' hr⟩))
termination_by 10 * ts.length + 2
decreasing_by all_goals subst_vars; first | omega | (simp only [List.length_cons]; omega)

theorem exists_primary {ts rest : List Token} {e : Expr} (h : Reads (readPrimary ts) e rest) :
    ∃ p : Primary, p.tokens ++ rest = ts ∧ p.expr = e := by
  rcases readPrimary_iff.mp h with ⟨rfl, rfl⟩ | ⟨rfl, rfl⟩ | ⟨l, rfl, rfl⟩ |
    ⟨c, arg, mid, rfl, rfl, ha⟩ | ⟨mid, rfl, ha⟩
  · exact ⟨.current, rfl, rfl⟩
  · exact ⟨.root, rfl, rfl⟩
  · exact ⟨.literal l, rfl, rfl⟩
  · obtain ⟨arg, rfl, rfl, -⟩ := lookahead_chain (Nat.zero_le 5) ha
    exact ⟨.coerce c arg, by simp [Primary.tokens], rfl⟩
  · obtain ⟨c, rfl, rfl, -⟩ := lookahead_chain (Nat.zero_le 5) ha
    exact ⟨.enclosed c, by simp [Primary.tokens], rfl⟩
termination_by 10 * ts.length + 1
decreasing_by all_goals subst_vars; first | omega | (simp only [List.length_cons]; omega)

theorem lookahead_accessors {ts rest : List Token} {target e : Expr}
    (h : Reads (readAccessors target ts) e rest) :
    ∃ a : Accessors, a.tokens ++ rest = ts ∧ a.apply target = e ∧
      ∀ rest', rest'.head? = rest.head? →
        Reads (readAccessors target (a.tokens ++ rest')) e rest' := by
  rcases readAccessors_iff.mp h with ⟨name, mid, rfl, hn, ha⟩ | ⟨m, args, mid, after, rfl, hx, ha⟩ |
    ⟨index, mid, after, rfl, hx, ha⟩ | ⟨hd, hb, rfl, rfl⟩
  · obtain ⟨more, rfl, rfl, hmore⟩ := lookahead_accessors ha
    exact ⟨.property name more, rfl, rfl, fun rest' hr => readAccessors_iff.mpr (.inl
      ⟨name, more.tokens ++ rest', rfl, ne_cons_congr (head?_append_congr hr) hn,
        hmore rest' hr⟩)⟩
  · have := hx.shorter
    obtain ⟨args, rfl, rfl⟩ := exists_arguments hx
    obtain ⟨more, rfl, rfl, hmore⟩ := lookahead_accessors ha
    exact ⟨.call m args more, by simp [Accessors.tokens], rfl, fun rest' hr =>
      readAccessors_iff.mpr (.inr (.inl ⟨m, args.exprs, _, _, by simp [Accessors.tokens],
        reads_arguments args (more.tokens ++ rest'), hmore rest' hr⟩))⟩
  · have : after.length < mid.length := Nat.lt_of_succ_lt hx.shorter
    obtain ⟨index, rfl, rfl, -⟩ := lookahead_chain (Nat.zero_le 5) hx
    obtain ⟨more, rfl, rfl, hmore⟩ := lookahead_accessors ha
    exact ⟨.element index more, by simp [Accessors.tokens], rfl, fun rest' hr =>
      readAccessors_iff.mpr (.inr (.inr (.inl ⟨index.expr, _, _, by simp [Accessors.tokens],
        reads_chain index (.symbol .bracketClose :: (more.tokens ++ rest')) (by simp),
        hmore rest' hr⟩)))⟩
  · exact ⟨.nil, rfl, rfl, fun rest' hr => readAccessors_iff.mpr (.inr (.inr (.inr
      ⟨ne_cons_congr hr hd, ne_cons_congr hr hb, rfl, rfl⟩)))⟩
termination_by 10 * ts.length
decreasing_by all_goals subst_vars; first | omega | (simp only [List.length_cons]; omega)

theorem exists_arguments {ts rest : List Token} {args : List Expr}
    (h : Reads (readArguments ts) args rest) :
    ∃ a : Arguments, a.tokens ++ .symbol .parenClose :: rest = ts ∧ a.exprs = args := by
  rcases readArguments_iff.mp h with ⟨first, mid, hf, more, rfl, hm⟩ | ⟨rfl, rfl⟩
  · have := hf.shorter
    obtain ⟨first, rfl, rfl, -⟩ := lookahead_chain (Nat.zero_le 5) hf
    obtain ⟨more, rfl, rfl⟩ := exists_moreArguments hm
    exact ⟨.some first more, by simp [Arguments.tokens], rfl⟩
  · exact ⟨.none, rfl, rfl⟩
termination_by 10 * ts.length + 9
decreasing_by all_goals omega

theorem exists_moreArguments {ts rest : List Token} {args : List Expr}
    (h : Reads (readMoreArguments ts) args rest) :
    ∃ a : MoreArguments, a.tokens ++ .symbol .parenClose :: rest = ts ∧ a.exprs = args := by
  rcases readMoreArguments_iff.mp h with ⟨next, mid, after, rfl, hn, more, rfl, hm⟩ | ⟨rfl, rfl⟩
  · have := hn.shorter
    obtain ⟨next, rfl, rfl, -⟩ := lookahead_chain (Nat.zero_le 5) hn
    obtain ⟨more, rfl, rfl⟩ := exists_moreArguments hm
    exact ⟨.cons next more, by simp [MoreArguments.tokens], rfl⟩
  · exact ⟨.nil, rfl, rfl⟩
termination_by 10 * ts.length
decreasing_by all_goals subst_vars; first | omega | (simp only [List.length_cons]; omega)

end

theorem exists_chain {n : Nat} (hn : n ≤ 5) {ts rest : List Token} {e : Expr}
    (h : Reads (readAt n ts) e rest) : ∃ c : Chain n, c.tokens ++ rest = ts ∧ c.expr = e := by
  obtain ⟨c, ht, he, -⟩ := lookahead_chain hn h
  exact ⟨c, ht, he⟩

end PathQuery.Grammar
