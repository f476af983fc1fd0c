import PathQuery.Proofs.Grammar.Expression

/-! Derivations of expressions are unique: two with the same tokens are the same.
Where two derivations split their tokens into parts, the reader of the first part reads both, so
that they split at the same place. -/
namespace PathQuery.Grammar
open PathQuery.Expr

/-- Two lists in each of which one reader stops at the split are split alike. -/
theorem split_of_reads {α : Type} {read : (ts : List Token) → Read α ts} {a b : α}
    {ts ts' rest rest' : List Token} (h : ts ++ rest = ts' ++ rest')
    (ha : Reads (read (ts ++ rest)) a rest) (hb : Reads (read (ts' ++ rest')) b rest') :
    ts = ts' ∧ rest = rest' := by
  rw [h] at ha
  obtain ⟨_, rfl⟩ := ha.unique hb
  exact ⟨List.append_cancel_right h, rfl⟩

theorem split_chain {n : Nat} {c d : Chain n} {rest rest' : List Token} (hs : Stops n rest)
    (hs' : Stops n rest') (h : c.tokens ++ rest = d.tokens ++ rest') :
    c.tokens = d.tokens ∧ rest = rest' :=
  split_of_reads h (reads_chain c rest hs) (reads_chain d rest' hs')

theorem stops_operators_nil {n : Nat} (more : Operators n) : Stops (n + 1) more.tokens := by
  simpa using stops_operators more stops_nil

theorem stops_moreArguments_nil {n : Nat} (args : MoreArguments) : Stops n args.tokens := by
  simpa using stops_moreArguments args stops_nil

theorem primary_ne_operator (p : Primary) {ts more : List Token} {s : Symbol}
    (hs : s = .minus ∨ s = .not ∨ s = .mapOpen) : p.tokens ++ ts ≠ .symbol s :: more := by
  intro h
  have := reads_primary p ts
  rw [h] at this
  exact not_reads_readPrimary hs this

theorem chain_tokens_ne_nil (c : Chain 0) : c.tokens ≠ [] := by
  intro h
  have := reads_chain c [] stops_nil
  rw [h] at this
  exact not_reads_nil this

mutual

theorem chain_unique {n : Nat} : ∀ c d : Chain n, c.tokens = d.tokens → c = d
  | .operands h first more, .operands _ first' more', he => by
    obtain ⟨hf, hm⟩ := split_chain (stops_operators_nil more) (stops_operators_nil more') he
    rw [chain_unique first first' hf, operators_unique more more' hm]
  | .operands h _ _, .unary _, _ => absurd h (by decide)
  | .unary u, .operands h _ _, _ => absurd h (by decide)
  | .unary u, .unary v, he => congrArg Chain.unary (unary_unique u v he)
termination_by structural c => c

theorem operators_unique {n : Nat} : ∀ more more' : Operators n, more.tokens = more'.tokens →
    more = more'
  | .nil, .nil, _ => rfl
  | .nil, .comparison .., he => by cases he
  | .nil, .cons .., he => by cases he
  | .comparison .., .nil, he => by cases he
  | .comparison op h hn operand, .comparison op' _ _ operand', he => by
    obtain ⟨ho, ht⟩ : op.symbol = op'.symbol ∧ operand.tokens = operand'.tokens := by
      simpa [Operators.tokens] using he
    obtain rfl := BinaryOp.symbol_inj.mp ho
    rw [chain_unique operand operand' ht]
  | .comparison _ _ hn _, .cons _ _ hn' _ _, _ => absurd hn hn'
  | .cons .., .nil, he => by cases he
  | .cons _ _ hn _ _, .comparison _ _ hn' _, _ => absurd hn' hn
  | .cons op h hn operand more, .cons op' _ _ operand' more', he => by
    obtain ⟨ho, ht⟩ : op.symbol = op'.symbol ∧
        operand.tokens ++ more.tokens = operand'.tokens ++ more'.tokens := by
      simpa [Operators.tokens] using he
    obtain rfl := BinaryOp.symbol_inj.mp ho
    obtain ⟨hf, hm⟩ := split_chain (stops_operators_nil more) (stops_operators_nil more') ht
    rw [chain_unique operand operand' hf, operators_unique more more' hm]
termination_by structural c => c

theorem unary_unique : ∀ u v : Unary, u.tokens = v.tokens → u = v
  | .minus u, .minus v, he => by
    rw [unary_unique u v (by simpa [Unary.tokens] using he)]
  | .not u, .not v, he => by
    rw [unary_unique u v (by simpa [Unary.tokens] using he)]
  | .negated c, .negated d, he => by
    rw [chain_unique c d (by simpa [Unary.tokens] using he)]
  | .access p a, .access q b, he => by
    obtain ⟨hp, ha⟩ := split_of_reads he (reads_primary p a.tokens) (reads_primary q b.tokens)
    rw [primary_unique p q hp, accessors_unique a b ha]
  | .access p a, .minus _, he => absurd he (primary_ne_operator p (by simp))
  | .access p a, .not _, he => absurd he (primary_ne_operator p (by simp))
  | .access p a, .negated _, he => absurd he (primary_ne_operator p (by simp))
  | .minus _, .access p a, he => absurd he.symm (primary_ne_operator p (by simp))
  | .not _, .access p a, he => absurd he.symm (primary_ne_operator p (by simp))
  | .negated _, .access p a, he => absurd he.symm (primary_ne_operator p (by simp))
  | .minus _, .not _, he => by cases he
  | .minus _, .negated _, he => by cases he
  | .not _, .minus _, he => by cases he
  | .not _, .negated _, he => by cases he
  | .negated _, .minus _, he => by cases he
  | .negated _, .not _, he => by cases he
termination_by structural c => c

theorem primary_unique : ∀ p q : Primary, p.tokens = q.tokens → p = q
  | .current, q, he => by cases q <;> simp_all [Primary.tokens]
  | .root, q, he => by cases q <;> simp_all [Primary.tokens]
  | .literal l, q, he => by cases q <;> simp_all [Primary.tokens]
  | .coerce c arg, q, he => by
    cases q with
    | coerce d arg' =>
      obtain ⟨rfl, ha⟩ : c = d ∧ arg.tokens = arg'.tokens := by simpa [Primary.tokens] using he
      rw [chain_unique arg arg' ha]
    | _ => simp [Primary.tokens] at he
  | .enclosed c, q, he => by
    cases q with
    | enclosed d => rw [chain_unique c d (by simpa [Primary.tokens] using he)]
    | _ => simp [Primary.tokens] at he
termination_by structural c => c

theorem accessors_unique : ∀ a b : Accessors, a.tokens = b.tokens → a = b
  | .nil, b, he => by cases b <;> simp_all [Accessors.tokens]
  | .property name more, b, he => by
    cases b with
    | property name' more' =>
      obtain ⟨rfl, hm⟩ : name = name' ∧ more.tokens = more'.tokens := by
        simpa [Accessors.tokens] using he
      rw [accessors_unique more more' hm]
    | call m args more' =>
      -- what follows a property name is never the start of an argument list
      obtain ⟨_, hm⟩ : name = m.word ∧ more.tokens = .symbol .parenOpen :: _ := by
        simpa [Accessors.tokens] using he
      exact absurd hm (by simpa using accessors_ne_call (n := 5) more stops_nil _)
    | _ => simp [Accessors.tokens] at he
  | .call m args more, b, he => by
    cases b with
    | call m' args' more' =>
      obtain ⟨rfl, ht⟩ : m = m' ∧ args.tokens ++ .symbol .parenClose :: more.tokens =
          args'.tokens ++ .symbol .parenClose :: more'.tokens := by
        simpa [Accessors.tokens] using he
      have hr := reads_arguments args more.tokens
      rw [ht] at hr
      obtain ⟨_, hm⟩ := hr.unique (reads_arguments args' more'.tokens)
      rw [hm] at ht
      rw [arguments_unique args args' (List.append_cancel_right ht), accessors_unique more more' hm]
    | property name more' =>
      obtain ⟨_, hm⟩ : m.word = name ∧ .symbol .parenOpen :: _ = more'.tokens := by
        simpa [Accessors.tokens] using he
      exact absurd hm.symm (by simpa using accessors_ne_call (n := 5) more' stops_nil _)
    | _ => simp [Accessors.tokens] at he
  | .element index more, b, he => by
    cases b with
    | element index' more' =>
      have ht : index.tokens ++ .symbol .bracketClose :: more.tokens =
          index'.tokens ++ .symbol .bracketClose :: more'.tokens := by
        simpa [Accessors.tokens] using he
      obtain ⟨hi, hm⟩ := split_chain (by simp) (by simp) ht
      rw [chain_unique index index' hi, accessors_unique more more' (by simpa using hm)]
    | _ => simp [Accessors.tokens] at he
termination_by structural c => c

theorem arguments_unique : ∀ a b : Arguments, a.tokens = b.tokens → a = b
  | .none, .none, _ => rfl
  | .none, .some first more, he => by
    simp [Arguments.tokens, chain_tokens_ne_nil] at he
  | .some first more, .none, he => by
    simp [Arguments.tokens, chain_tokens_ne_nil] at he
  | .some first more, .some first' more', he => by
    obtain ⟨hf, hm⟩ := split_chain (stops_moreArguments_nil more) (stops_moreArguments_nil more') he
    rw [chain_unique first first' hf, moreArguments_unique more more' hm]
termination_by structural c => c

theorem moreArguments_unique : ∀ a b : MoreArguments, a.tokens = b.tokens → a = b
  | .nil, .nil, _ => rfl
  | .nil, .cons .., he => by cases he
  | .cons .., .nil, he => by cases he
  | .cons next more, .cons next' more', he => by
    have ht : next.tokens ++ more.tokens = next'.tokens ++ more'.tokens := by
      simpa [MoreArguments.tokens] using he
    obtain ⟨hn, hm⟩ := split_chain (stops_moreArguments_nil more) (stops_moreArguments_nil more') ht
    rw [chain_unique next next' hn, moreArguments_unique more more' hm]
termination_by structural c => c

end

end PathQuery.Grammar
