import PathQuery.Proofs.Grammar.Blame
import PathQuery.Proofs.Grammar.Failures

/-! Where an expression fails.
A failure is either at the token that a reader looks at after the parts it has read, or the failure
of its next part; the recursion is that of the readers, with their measure. The kinds agree with the
place of the fault only if no name but a method's is called, since an unknown name is noticed after
its arguments. -/
namespace PathQuery.Grammar
open PathQuery.Expr

/-- Only methods are called. -/
def KnownCalls (ts : List Token) : Prop :=
  ∀ name, [.symbol .dot, .identifier name, .symbol .parenOpen] <:+: ts →
    (Method.ofName? name).isSome

theorem KnownCalls.right {x ts : List Token} (h : KnownCalls (x ++ ts)) : KnownCalls ts :=
  fun name hn => h name (hn.trans (List.suffix_append x ts).isInfix)

/-! ## Parts of expressions -/

namespace Phrase

def chain (n : Nat) : Phrase where
  fails ts k := Fails (readAt n ts) k
  derives ts := ∃ c : Chain n, c.tokens = ts

def operators (n : Nat) (lhs : Expr) : Phrase where
  fails ts k := Fails (readOperators n lhs ts) k
  derives ts := ∃ more : Operators n, more.tokens = ts

def unary : Phrase where
  fails ts k := Fails (readUnary ts) k
  derives ts := ∃ u : Unary, u.tokens = ts

def primary : Phrase where
  fails ts k := Fails (readPrimary ts) k
  derives ts := ∃ p : Primary, p.tokens = ts

def accessors (target : Expr) : Phrase where
  fails ts k := Fails (readAccessors target ts) k
  derives ts := ∃ a : Accessors, a.tokens = ts

def arguments : Phrase where
  fails ts k := Fails (readArguments ts) k
  derives ts := ∃ args : Arguments, args.tokens ++ [.symbol .parenClose] = ts

def moreArguments : Phrase where
  fails ts k := Fails (readMoreArguments ts) k
  derives ts := ∃ args : MoreArguments, args.tokens ++ [.symbol .parenClose] = ts

/-- An expression up to a closing symbol. -/
def upTo (close : Symbol) : Phrase where
  fails := FailsUpTo close
  derives ts := ∃ c : Chain 0, c.tokens ++ [.symbol close] = ts

end Phrase

/-! ## Derivations -/

theorem symbol_ne_comma (op : BinaryOp) : op.symbol ≠ .comma := by
  cases op <;> decide

/-- A token other than a name that starts an expression starts one that can be read. -/
theorem exists_chain_head {t : Token} (ht : startsWith t = true)
    (hn : ∀ name, t ≠ .identifier name) : ∃ c : Chain 0, c.tokens.head? = some t := by
  obtain ⟨u, hu⟩ : ∃ u : Unary, u.tokens.head? = some t := by
    cases t with
    | identifier name => exact absurd rfl (hn name)
    | string s => exact ⟨.access (.literal (.string s)) .nil, rfl⟩
    | number d => exact ⟨.access (.literal (.number d)) .nil, rfl⟩
    | symbol s =>
      obtain ⟨c, -⟩ := exists_chain_of_primary (Nat.zero_le 5) .current
      cases s with
      | root => exact ⟨.access .root .nil, rfl⟩
      | current => exact ⟨.access .current .nil, rfl⟩
      | mapOpen => exact ⟨.negated c, rfl⟩
      | minus => exact ⟨.minus (.access .current .nil), rfl⟩
      | not => exact ⟨.not (.access .current .nil), rfl⟩
      | parenOpen => exact ⟨.access (.enclosed c) .nil, rfl⟩
      | _ => cases ht
    | _ => cases ht
  obtain ⟨c, hc, -⟩ := exists_chain_of_unary (Nat.zero_le 5) u
  exact ⟨c, by rw [hc, hu]⟩

theorem settled_primary : ∀ p : Primary, Settled p.tokens
  | .current => by simp [Primary.tokens]
  | .root => by simp [Primary.tokens]
  | .literal l => by simp [Primary.tokens]
  | .coerce c arg => by simp [Primary.tokens]
  | .enclosed e => by simp [Primary.tokens]

mutual

theorem settled_chain {n : Nat} : ∀ c : Chain n, Settled c.tokens
  | .operands _ first more => (settled_chain first).append (settled_operators more)
  | .unary u => settled_unary u

theorem settled_operators {n : Nat} : ∀ more : Operators n, Settled more.tokens
  | .nil => settled_nil
  | .comparison op _ _ operand => (settled_chain operand).cons (by simp [symbol_ne_comma op])
  | .cons op _ _ operand more =>
    ((settled_chain operand).append (settled_operators more)).cons (by simp [symbol_ne_comma op])

theorem settled_unary : ∀ u : Unary, Settled u.tokens
  | .minus operand => (settled_unary operand).cons (by simp)
  | .not operand => (settled_unary operand).cons (by simp)
  | .negated e => by simp [Unary.tokens]
  | .access target accessors => (settled_primary target).append (settled_accessors accessors)

theorem settled_accessors : ∀ a : Accessors, Settled a.tokens
  | .nil => settled_nil
  | .property _ more => ((settled_accessors more).cons (by simp)).cons (by simp)
  | .call _ args more => by
    simpa [Accessors.tokens] using (settled_accessors more).cons (by simp)
  | .element index more => by
    simpa [Accessors.tokens] using (settled_accessors more).cons (by simp)

end

theorem settled_operand {n : Nat} (op : BinaryOp) (operand : Chain n) :
    Settled (.symbol op.symbol :: operand.tokens) :=
  (settled_chain operand).cons (by simp [symbol_ne_comma op])

theorem settled_argument (c : Chain 0) : Settled (.symbol .comma :: c.tokens) := by
  obtain ⟨t, ts, hc⟩ := List.exists_cons_of_ne_nil (chain_tokens_ne_nil c)
  have := settled_chain c
  rw [hc] at this ⊢
  exact settled_cons_cons.mpr this

/-! ## Faults -/

open Phrase

/-- What closes an expression is at fault where the expression is not. -/
theorem fault_upTo {close : Symbol} {ts : List Token} {k : Token.Kind}
    (hf : Fails (readAt 0 ts) k → (chain 0).Fault ts k) (h : FailsUpTo close ts k) :
    (upTo close).Fault ts k := by
  rcases h with h | ⟨e, rest, hne, hr, hk⟩
  · refine (hf h).first (fun _ _ h => .inl h) ?_ (fun _ => id)
    rintro _ ⟨c, rfl⟩
    exact ⟨[.symbol close], c, rfl⟩
  · obtain ⟨c, rfl, rfl, hc⟩ := lookahead_chain (Nat.zero_le 5) hr
    refine Fault.next (settled_chain c) (fun rest' hr => ?_) ⟨[.symbol close], c, rfl⟩ hk
    exact .inr ⟨c.expr, rest', by rwa [hr], hc rest' hr, (nextKind_congr hr).trans hk⟩

/-- Of the tokens that can start an argument only a name can be at fault there, and it is blamed
itself, not the comma before it. -/
theorem blame_argument {ts : List Token} {k : Token.Kind} (ht : ∃ t ∈ ts.head?, startsWith t = true)
    (hf : ∀ ts', ts'.head? = ts.head? → Fails (readAt 0 ts') k) :
    blame [.symbol .comma] ts = Token.nextKind ts := by
  obtain ⟨t, hts, ht⟩ := ht
  obtain ⟨mid, rfl⟩ := List.head?_eq_some_iff.mp hts
  by_cases hn : ∃ name, t = .identifier name
  · obtain ⟨name, rfl⟩ := hn
    rfl
  · obtain ⟨c, hc⟩ := exists_chain_head ht (by simpa using hn)
    have := reads_chain c [] stops_nil
    rw [List.append_nil] at this
    exact absurd this (hf c.tokens hc).not_reads

theorem call_append {name : String} {ts rest : List Token} :
    .symbol .dot :: .identifier name :: .symbol .parenOpen :: (ts ++ .symbol .parenClose :: rest) =
      (.symbol .dot :: .identifier name :: .symbol .parenOpen :: (ts ++ [.symbol .parenClose])) ++
        rest := by
  simp

theorem element_append {ts rest : List Token} :
    .symbol .bracketOpen :: (ts ++ .symbol .bracketClose :: rest) =
      (.symbol .bracketOpen :: (ts ++ [.symbol .bracketClose])) ++ rest := by
  simp

mutual

theorem fault_chain {n : Nat} (hn : n ≤ 5) {ts : List Token} {k : Token.Kind}
    (hc : KnownCalls ts) (h : Fails (readAt n ts) k) : (chain n).Fault ts k := by
  by_cases hlt : n < 5
  · rcases (readAt_fails hlt).mp h with hf | ⟨lhs, mid, hf, ho⟩
    · refine (fault_chain hlt hc hf).first (fun _ _ hf => (readAt_fails hlt).mpr (.inl hf)) ?_
        (fun _ => id)
      rintro _ ⟨c, rfl⟩
      exact ⟨[], .operands hlt c .nil, by simp [Chain.tokens, Operators.tokens]⟩
    · have := hf.shorter
      obtain ⟨first, rfl, rfl, hfirst⟩ := lookahead_chain hlt hf
      refine (fault_operators hlt hc.right ho).after (settled_chain first)
        (fun ts hts ho => (readAt_fails hlt).mpr (.inr ⟨first.expr, ts, hfirst ts hts, ho⟩)) ?_
        (fun _ => id)
      rintro _ ⟨more, rfl⟩
      exact ⟨[], .operands hlt first more, by simp [Chain.tokens]⟩
  · obtain rfl : n = 5 := by omega
    rw [readAt_five] at h
    refine (fault_unary hc h).first (fun ts _ h => ?_) ?_ (fun _ => id)
    · show Fails (readAt 5 ts) k
      rwa [readAt_five]
    · rintro _ ⟨u, rfl⟩
      exact ⟨[], .unary u, by simp [Chain.tokens]⟩
termination_by 10 * ts.length + (5 - n) + 3
decreasing_by all_goals omega

theorem fault_operators {n : Nat} (hn : n < 5) {ts : List Token} {lhs : Expr} {k : Token.Kind}
    (hc : KnownCalls ts) (h : Fails (readOperators n lhs ts) k) :
    (operators n lhs).Fault ts k := by
  rcases BinaryOp.next n ts with ht | ⟨op, mid, hop, rfl⟩
  · exact absurd h (not_fails_readOperators ht)
  · rcases (readOperators_fails hop).mp h with hr | ⟨hl, rhs, after, hr, ho⟩
    · refine (fault_chain hn (hc.right (x := [_])) hr).after (x := [.symbol op.symbol])
        (by simp [symbol_ne_comma op])
        (fun _ _ hr => (readOperators_fails hop).mpr (.inl hr)) ?_ (fun _ => id)
      rintro _ ⟨c, rfl⟩
      obtain ⟨more, hm, -⟩ := exists_operators_of_chain hop c
      exact ⟨[], more, by simp [hm]⟩
    · have := hr.shorter
      obtain ⟨operand, rfl, rfl, hoperand⟩ := lookahead_chain hn hr
      refine (fault_operators hn (hc.right (x := _ :: operand.tokens)) ho).after
        (settled_operand op operand) (fun ts hts ho => (readOperators_fails hop).mpr
          (.inr ⟨hl, operand.expr, ts, hoperand ts hts, ho⟩)) ?_ (fun _ => id)
      rintro _ ⟨more, rfl⟩
      exact ⟨[], .cons op hop hl operand more, by simp [Operators.tokens]⟩
termination_by 10 * ts.length
decreasing_by all_goals subst_vars; first | omega | (simp only [List.length_cons]; omega)

theorem fault_unary {ts : List Token} {k : Token.Kind} (hc : KnownCalls ts)
    (h : Fails (readUnary ts) k) : unary.Fault ts k := by
  rcases readUnary_fails.mp h with ⟨mid, rfl, hf⟩ | ⟨mid, rfl, hf⟩ | ⟨mid, rfl, hf⟩ |
    ⟨hs, hf | ⟨target, mid, ht, ha⟩⟩
  · refine (fault_unary (hc.right (x := [_])) hf).after (x := [.symbol .minus]) (by simp)
      (fun ts _ hf => readUnary_fails.mpr (.inl ⟨ts, rfl, hf⟩)) ?_ (fun _ => id)
    rintro _ ⟨u, rfl⟩
    exact ⟨[], .minus u, by simp [Unary.tokens]⟩
  · refine (fault_unary (hc.right (x := [_])) hf).after (x := [.symbol .not]) (by simp)
      (fun ts _ hf => readUnary_fails.mpr (.inr (.inl ⟨ts, rfl, hf⟩))) ?_ (fun _ => id)
    rintro _ ⟨u, rfl⟩
    exact ⟨[], .not u, by simp [Unary.tokens]⟩
  · refine (fault_upTo (fault_chain (Nat.zero_le 5) (hc.right (x := [_]))) hf).after
      (x := [.symbol .mapOpen]) (by simp)
      (fun ts _ hf => readUnary_fails.mpr (.inr (.inr (.inl ⟨ts, rfl, hf⟩)))) ?_ (fun _ => id)
    rintro _ ⟨c, rfl⟩
    exact ⟨[], .negated c, by simp [Unary.tokens]⟩
  · refine (fault_primary hc hf).first (fun ts' hts hf => readUnary_fails.mpr
      (.inr (.inr (.inr ⟨by rwa [hts], .inl hf⟩)))) ?_ (fun _ => id)
    rintro _ ⟨p, rfl⟩
    exact ⟨[], .access p .nil, by simp [Unary.tokens, Accessors.tokens]⟩
  · have := ht.shorter
    obtain ⟨p, rfl, rfl⟩ := exists_primary ht
    refine (fault_accessors hc.right ha).after (settled_primary p) (fun ts hts ha =>
      readUnary_fails.mpr (.inr (.inr (.inr ⟨?_, .inr ⟨p.expr, ts, reads_primary p ts, ha⟩⟩))))
      ?_ (fun _ => id)
    · rwa [head?_append_congr hts]
    · rintro _ ⟨a, rfl⟩
      exact ⟨[], .access p a, by simp [Unary.tokens]⟩
termination_by 10 * ts.length + 2
decreasing_by all_goals subst_vars; first | omega | (simp only [List.length_cons]; omega)

theorem fault_primary {ts : List Token} {k : Token.Kind} (hc : KnownCalls ts)
    (h : Fails (readPrimary ts) k) : primary.Fault ts k := by
  rcases readPrimary_fails.mp h with ⟨c, mid, rfl, hp, hk⟩ | ⟨c, mid, rfl, hf⟩ | ⟨mid, rfl, hf⟩ |
    ⟨hs, hk⟩
  · obtain ⟨e, -⟩ := exists_chain_of_primary (Nat.zero_le 5) .current
    refine Fault.next (x := [_]) (by simp) (fun mid' hm => readPrimary_fails.mpr
      (.inl ⟨c, mid', rfl, by rwa [hm], (nextKind_congr hm).trans hk⟩)) ?_ hk
    exact ⟨_, .coerce c e, rfl⟩
  · refine (fault_upTo (fault_chain (Nat.zero_le 5) (hc.right (x := [_, _]))) hf).after
      (x := [.identifier c.word, .symbol .parenOpen]) (by simp)
      (fun ts _ hf => readPrimary_fails.mpr (.inr (.inl ⟨c, ts, rfl, hf⟩))) ?_ (fun _ => id)
    rintro _ ⟨e, rfl⟩
    exact ⟨[], .coerce c e, by simp [Primary.tokens]⟩
  · refine (fault_upTo (fault_chain (Nat.zero_le 5) (hc.right (x := [_]))) hf).after
      (x := [.symbol .parenOpen]) (by simp)
      (fun ts _ hf => readPrimary_fails.mpr (.inr (.inr (.inl ⟨ts, rfl, hf⟩)))) ?_ (fun _ => id)
    rintro _ ⟨e, rfl⟩
    exact ⟨[], .enclosed e, by simp [Primary.tokens]⟩
  · exact Fault.here (fun ts' hts => readPrimary_fails.mpr (.inr (.inr (.inr
      ⟨by rwa [hts], (nextKind_congr hts).trans hk⟩)))) ⟨_, .current, rfl⟩ hk
termination_by 10 * ts.length + 1
decreasing_by all_goals subst_vars; first | omega | (simp only [List.length_cons]; omega)

theorem fault_accessors {ts : List Token} {target : Expr} {k : Token.Kind} (hc : KnownCalls ts)
    (h : Fails (readAccessors target ts) k) : (accessors target).Fault ts k := by
  rcases readAccessors_fails.mp h with ⟨mid, rfl, hn, hk⟩ | ⟨name, mid, rfl, hp, ha⟩ |
    ⟨name, mid, rfl, hf⟩ | ⟨mid, rfl, hf | ⟨index, after, hi, ha⟩⟩
  · refine Fault.next (x := [_]) (by simp) (fun mid' hm => readAccessors_fails.mpr
      (.inl ⟨mid', rfl, by simpa only [hm] using hn, (nextKind_congr hm).trans hk⟩)) ?_ hk
    exact ⟨[.identifier ""], .property "" .nil, rfl⟩
  · refine (fault_accessors (hc.right (x := [_, _])) ha).after
      (x := [.symbol .dot, .identifier name]) (by simp) (fun ts hts ha => readAccessors_fails.mpr
        (.inr (.inl ⟨name, ts, rfl, by rwa [hts], ha⟩))) ?_ (fun _ => id)
    rintro _ ⟨a, rfl⟩
    exact ⟨[], .property name a, by simp [Accessors.tokens]⟩
  · -- only methods are called, so that a failure lies in the arguments or after them
    obtain ⟨m, hm⟩ := Option.isSome_iff_exists.mp (hc name ⟨[], mid, rfl⟩)
    obtain rfl := Method.ofName?_eq_some.mp hm
    rcases hf with hf | ⟨args, after, hx, ⟨hu, -⟩ | ⟨m', hm', ha⟩⟩
    · refine (fault_arguments (hc.right (x := [_, _, _])) hf).after
        (x := [.symbol .dot, .identifier m.word, .symbol .parenOpen]) (by simp)
        (fun ts _ hf => readAccessors_fails.mpr (.inr (.inr (.inl ⟨_, ts, rfl, .inl hf⟩)))) ?_
        (fun _ => id)
      rintro _ ⟨args, rfl⟩
      exact ⟨[], .call m args .nil, by simp [Accessors.tokens]⟩
    · cases hu.symm.trans hm
    · cases hm.symm.trans hm'
      have := hx.shorter
      obtain ⟨args, rfl, rfl⟩ := exists_arguments hx
      rw [call_append] at hc ⊢
      refine (fault_accessors hc.right ha).after (by simp) (fun ts _ ha => ?_) ?_ (fun _ => id)
      · rw [← call_append]
        exact readAccessors_fails.mpr (.inr (.inr (.inl ⟨_, _, rfl, .inr ⟨args.exprs, ts,
          reads_arguments args ts, .inr ⟨m, hm, ha⟩⟩⟩)))
      · rintro _ ⟨a, rfl⟩
        exact ⟨[], .call m args a, by simp [Accessors.tokens]⟩
  · refine (fault_upTo (fault_chain (Nat.zero_le 5) (hc.right (x := [_]))) hf).after
      (x := [.symbol .bracketOpen]) (by simp) (fun ts _ hf => readAccessors_fails.mpr
        (.inr (.inr (.inr ⟨ts, rfl, .inl hf⟩)))) ?_ (fun _ => id)
    rintro _ ⟨c, rfl⟩
    exact ⟨[], .element c .nil, by simp [Accessors.tokens]⟩
  · have : after.length < mid.length := Nat.lt_of_succ_lt hi.shorter
    obtain ⟨c, rfl, rfl⟩ := exists_chain (Nat.zero_le 5) hi
    rw [element_append] at hc ⊢
    refine (fault_accessors hc.right ha).after (by simp) (fun ts _ ha => ?_) ?_ (fun _ => id)
    · rw [← element_append]
      exact readAccessors_fails.mpr (.inr (.inr (.inr ⟨_, rfl, .inr ⟨c.expr, ts,
        reads_chain c _ (by simp), ha⟩⟩)))
    · rintro _ ⟨a, rfl⟩
      exact ⟨[], .element c a, by simp [Accessors.tokens]⟩
termination_by 10 * ts.length
decreasing_by all_goals subst_vars; first | omega | (simp only [List.length_cons]; omega)

theorem fault_arguments {ts : List Token} {k : Token.Kind} (hc : KnownCalls ts)
    (h : Fails (readArguments ts) k) : arguments.Fault ts k := by
  rcases readArguments_fails.mp h with ⟨ht, hf | ⟨first, mid, hf, hm⟩⟩ | ⟨ht, hp, hk⟩
  · refine (fault_chain (Nat.zero_le 5) hc hf).first (fun ts' hts hf => readArguments_fails.mpr
      (.inl ⟨by rwa [hts], .inl hf⟩)) ?_ (fun _ => id)
    rintro _ ⟨c, rfl⟩
    exact ⟨[.symbol .parenClose], .some c .nil, by simp [Arguments.tokens, MoreArguments.tokens]⟩
  · have := hf.shorter
    obtain ⟨c, rfl, rfl, hfirst⟩ := lookahead_chain (Nat.zero_le 5) hf
    refine (fault_moreArguments hc.right hm).after (settled_chain c) (fun ts hts hm =>
      readArguments_fails.mpr (.inl ⟨?_, .inr ⟨c.expr, ts, hfirst ts hts, hm⟩⟩)) ?_ (fun _ => id)
    · rwa [head?_append_congr hts]
    · rintro _ ⟨more, rfl⟩
      exact ⟨[], .some c more, by simp [Arguments.tokens]⟩
  · exact Fault.here (fun ts' hts => readArguments_fails.mpr
      (.inr ⟨by rwa [hts], by rwa [hts], (nextKind_congr hts).trans hk⟩)) ⟨_, .none, rfl⟩ hk
termination_by 10 * ts.length + 9
decreasing_by all_goals omega

theorem fault_moreArguments {ts : List Token} {k : Token.Kind} (hc : KnownCalls ts)
    (h : Fails (readMoreArguments ts) k) : moreArguments.Fault ts k := by
  rcases readMoreArguments_fails.mp h with ⟨mid, rfl, ht, hf | ⟨next, after, hn, hm⟩⟩ |
    ⟨mid, rfl, ht, rfl⟩ | ⟨hcomma, hp, hk⟩
  · -- `Fault.after` does not apply, since a comma comes before the argument
    obtain ⟨before, rest, rfl, hb⟩ := fault_chain (Nat.zero_le 5) (hc.right (x := [_])) hf
    refine ⟨.symbol .comma :: before, rest, rfl, hb.after (x := [_]) ?_ (fun rest' hr hf =>
      readMoreArguments_fails.mpr (.inl ⟨before ++ rest', rfl, ?_, .inl hf⟩)) ?_ (fun _ => id)⟩
    · rintro rfl
      exact blame_argument ht hb.fails
    · rwa [head?_append_congr hr]
    · rintro _ ⟨c, rfl⟩
      exact ⟨[.symbol .parenClose], .cons c .nil, by simp [MoreArguments.tokens]⟩
  · have := hn.shorter
    obtain ⟨c, rfl, rfl, hnext⟩ := lookahead_chain (Nat.zero_le 5) hn
    refine (fault_moreArguments (hc.right (x := _ :: c.tokens)) hm).after (settled_argument c)
      (fun ts hts hm => readMoreArguments_fails.mpr
        (.inl ⟨c.tokens ++ ts, rfl, ?_, .inr ⟨c.expr, ts, hnext ts hts, hm⟩⟩)) ?_ (fun _ => id)
    · rwa [head?_append_congr hts]
    · rintro _ ⟨more, rfl⟩
      exact ⟨[], .cons c more, by simp [MoreArguments.tokens]⟩
  · obtain ⟨c, -⟩ := exists_chain_of_primary (Nat.zero_le 5) .current
    refine ⟨[.symbol .comma], mid, rfl, fun mid' hm => ?_, ⟨_, .cons c .nil, rfl⟩,
      .inl (blame_comma (x := []) ?_).symm⟩
    · exact readMoreArguments_fails.mpr (.inr (.inl ⟨mid', rfl, by rwa [hm], rfl⟩))
    · exact fun name hn => absurd (ht _ hn) (by simp [startsWith])
  · exact Fault.here (fun ts' hts => readMoreArguments_fails.mpr (.inr (.inr
      ⟨by rwa [hts], by rwa [hts], (nextKind_congr hts).trans hk⟩))) ⟨_, .nil, rfl⟩ hk
termination_by 10 * ts.length
decreasing_by all_goals subst_vars; first | omega | (simp only [List.length_cons]; omega)

end

end PathQuery.Grammar
