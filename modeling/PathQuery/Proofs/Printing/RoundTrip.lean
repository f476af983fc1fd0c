import PathQuery.Proofs.Grammar.Path
import PathQuery.Proofs.Printing.Legibility
import PathQuery.Proofs.Printing.WholeLexeme
import PathQuery.Query

/-! Printed steps compile to themselves.
The printed words are read back as their tokens, and these have a derivation whose translation are
the steps. -/
namespace PathQuery

namespace Spelling
open Grammar

variable {sp : Spelling}

/-! ## Expressions -/

theorem exists_chain_of_binary (op : BinaryOp) (p q : Primary) :
    ∃ c : Chain 0, c.tokens = p.tokens ++ .symbol op.symbol :: q.tokens ∧
      c.expr = .binary op p.expr q.expr := by
  have hl : op.precedence < 5 := by cases op <;> decide
  obtain ⟨l, hlt, hle⟩ := exists_chain_of_primary (n := op.precedence + 1) hl p
  obtain ⟨r, hrt, hre⟩ := exists_chain_of_primary (n := op.precedence + 1) hl q
  obtain ⟨more, hmt, hme⟩ := exists_operators_of_chain (n := op.precedence) rfl r
  obtain ⟨c, ht, he⟩ :=
    exists_chain_of_le (Nat.zero_le _) (Nat.le_of_lt hl) (.operands hl l more)
  exact ⟨c, by simp [ht, Chain.tokens, hlt, hmt, hrt], by simp [he, Chain.expr, hme, hle, hre]⟩

theorem token_literal {l : Literal} (h : l.Meets sp.correct) : (sp.literal l).token = l.token := by
  cases l with
  | number d => exact congrArg Token.number h
  | bool b => cases b <;> rfl
  | _ => rfl

/-- A part of an expression is a primary expression. -/
theorem exists_primary_enclose (e : Expr) (h : e.Meets sp.correct)
    (hc : ∃ c : Chain 0, c.tokens = (sp.expr e).map Word.token ∧ c.expr = e) :
    ∃ p : Primary, p.tokens = (e.enclose (sp.expr e)).map Word.token ∧ p.expr = e := by
  cases ha : e.isAtom with
  | true =>
    simp only [Expr.enclose, ha, if_true]
    cases e with
    | literal l => exact ⟨.literal l, by simp [Primary.tokens, expr, token_literal h], rfl⟩
    | current => exact ⟨.current, rfl, rfl⟩
    | root => exact ⟨.root, rfl, rfl⟩
    | _ => cases ha
  | false =>
    obtain ⟨c, ht, he⟩ := hc
    exact ⟨.enclosed c, by simp [Primary.tokens, Expr.enclose, ha, ht, Word.token], he⟩

mutual

theorem exists_chain_expr : ∀ e : Expr, e.Meets sp.correct →
    ∃ c : Chain 0, c.tokens = (sp.expr e).map Word.token ∧ c.expr = e
  | .literal l, h => by
    obtain ⟨c, ht, he⟩ := exists_chain_of_primary (Nat.zero_le 5) (.literal l)
    exact ⟨c, by simp [ht, Primary.tokens, expr, token_literal h], he⟩
  | .current, _ => exists_chain_of_primary (Nat.zero_le 5) .current
  | .root, _ => exists_chain_of_primary (Nat.zero_le 5) .root
  | .property target name, h => by
    obtain ⟨p, hp, rfl⟩ := exists_primary_enclose target h.1 (exists_chain_expr target h.1)
    obtain ⟨c, ht, he⟩ := exists_chain_of_unary (Nat.zero_le 5) (.access p (.property name .nil))
    refine ⟨c, ?_, he⟩
    simp [ht, Unary.tokens, Accessors.tokens, expr, hp, Word.token]
  | .element target index, h => by
    obtain ⟨p, hp, rfl⟩ := exists_primary_enclose target h.1 (exists_chain_expr target h.1)
    obtain ⟨q, hq, rfl⟩ := exists_primary_enclose index h.2 (exists_chain_expr index h.2)
    obtain ⟨i, hit, hie⟩ := exists_chain_of_primary (Nat.zero_le 5) q
    obtain ⟨c, ht, he⟩ := exists_chain_of_unary (Nat.zero_le 5) (.access p (.element i .nil))
    refine ⟨c, ?_, ?_⟩
    · simp [ht, Unary.tokens, Accessors.tokens, expr, hp, hit, hq, Word.token]
    · simp [he, Unary.expr, Accessors.apply, hie]
  | .call target method args, h => by
    obtain ⟨p, hp, rfl⟩ := exists_primary_enclose target h.1 (exists_chain_expr target h.1)
    obtain ⟨a, hat, hae⟩ := exists_arguments args h.2
    obtain ⟨c, ht, he⟩ := exists_chain_of_unary (Nat.zero_le 5) (.access p (.call method a .nil))
    refine ⟨c, ?_, ?_⟩
    · simp [ht, Unary.tokens, Accessors.tokens, expr, hp, hat, Word.token]
    · simp [he, Unary.expr, Accessors.apply, hae]
  | .coerce k arg, h => by
    obtain ⟨p, hp, hpe⟩ := exists_primary_enclose arg h (exists_chain_expr arg h)
    obtain ⟨a, hat, hae⟩ := exists_chain_of_primary (Nat.zero_le 5) p
    obtain ⟨c, ht, he⟩ := exists_chain_of_primary (Nat.zero_le 5) (.coerce k a)
    refine ⟨c, ?_, ?_⟩
    · simp [ht, Primary.tokens, expr, hat, hp, Word.token]
    · simp [he, Primary.expr, hae, hpe]
  | .unary op arg, h => by
    obtain ⟨p, hp, hpe⟩ := exists_primary_enclose arg h (exists_chain_expr arg h)
    cases op with
    | neg =>
      obtain ⟨c, ht, he⟩ := exists_chain_of_unary (Nat.zero_le 5) (.minus (.access p .nil))
      refine ⟨c, ?_, ?_⟩
      · simp [ht, Unary.tokens, Accessors.tokens, expr, hp, Word.token]
      · simp [he, Unary.expr, Accessors.apply, hpe]
    | not =>
      obtain ⟨c, ht, he⟩ := exists_chain_of_unary (Nat.zero_le 5) (.not (.access p .nil))
      refine ⟨c, ?_, ?_⟩
      · simp [ht, Unary.tokens, Accessors.tokens, expr, hp, Word.token]
      · simp [he, Unary.expr, Accessors.apply, hpe]
  | .binary op lhs rhs, h => by
    obtain ⟨p, hp, hpe⟩ := exists_primary_enclose lhs h.1 (exists_chain_expr lhs h.1)
    obtain ⟨q, hq, hqe⟩ := exists_primary_enclose rhs h.2 (exists_chain_expr rhs h.2)
    obtain ⟨c, ht, he⟩ := exists_chain_of_binary op p q
    exact ⟨c, by simp [ht, expr, hp, hq, Word.token], by simp [he, hpe, hqe]⟩

theorem exists_arguments : ∀ es : List Expr, Expr.AllMeet sp.correct es →
    ∃ a : Arguments, a.tokens = (sp.arguments es).map Word.token ∧ a.exprs = es
  | [], _ => ⟨.none, rfl, rfl⟩
  | e :: es, h => by
    obtain ⟨p, hp, hpe⟩ := exists_primary_enclose e h.1 (exists_chain_expr e h.1)
    obtain ⟨c, ht, he⟩ := exists_chain_of_primary (Nat.zero_le 5) p
    obtain ⟨a, hat, hae⟩ := exists_moreArguments es h.2
    refine ⟨.some c a, ?_, ?_⟩
    · simp [Arguments.tokens, arguments, ht, hp, hat]
    · simp [Arguments.exprs, he, hpe, hae]

theorem exists_moreArguments : ∀ es : List Expr, Expr.AllMeet sp.correct es →
    ∃ a : MoreArguments, a.tokens = (sp.moreArguments es).map Word.token ∧ a.exprs = es
  | [], _ => ⟨.nil, rfl, rfl⟩
  | e :: es, h => by
    obtain ⟨p, hp, hpe⟩ := exists_primary_enclose e h.1 (exists_chain_expr e h.1)
    obtain ⟨c, ht, he⟩ := exists_chain_of_primary (Nat.zero_le 5) p
    obtain ⟨a, hat, hae⟩ := exists_moreArguments es h.2
    refine ⟨.cons c a, ?_, ?_⟩
    · simp [MoreArguments.tokens, moreArguments, ht, hp, hat, Word.token]
    · simp [MoreArguments.exprs, he, hpe, hae]

end

/-! ## Steps -/

theorem exists_position {i : Int} (h : sp.correct.position i) :
    ∃ p : Position, p.token = (Word.number (sp.position i)).token ∧ p.index = i := by
  obtain ⟨p, hp⟩ := Double.exists_position h.1
  exact ⟨p, congrArg Token.number hp, by rw [← p.toInt64_eq_index, hp, h.2]⟩

theorem exists_item {s : Selector} (h : s.Meets sp.correct) :
    ∃ i : Item, i.token = (sp.selector s).token ∧ i.selector = s := by
  cases s with
  | index i =>
    obtain ⟨p, ht, rfl⟩ := exists_position h
    exact ⟨.position p, ht, rfl⟩
  | name s => exact ⟨.name s, rfl, rfl⟩

theorem exists_bound {i : Option Int} (h : ∀ j ∈ i, sp.correct.position j) :
    ∃ p : Option Position, p.toList.map Position.token = (sp.bound i).map Word.token ∧
      p.map Position.index = i := by
  cases i with
  | none => exact ⟨none, rfl, rfl⟩
  | some i =>
    obtain ⟨p, ht, rfl⟩ := exists_position (h i rfl)
    exact ⟨some p, by simp [bound, ht], rfl⟩

/-- What each of some words derives, words with commas between them derive in a row. -/
theorem exists_more {α ι : Type} {word : α → Word} {token : ι → Token} {value : ι → α}
    {as : List α} (h : ∀ a ∈ as, ∃ i, token i = (word a).token ∧ value i = a) :
    ∃ is : List ι, (is.flatMap fun i => [.symbol .comma, token i]) =
      (as.flatMap fun a => [.symbol .comma, word a]).map Word.token ∧ is.map value = as := by
  induction as with
  | nil => exact ⟨[], rfl, rfl⟩
  | cons a as ih =>
    obtain ⟨ha, has⟩ := List.forall_mem_cons.mp h
    obtain ⟨i, ht, rfl⟩ := ha
    obtain ⟨is, hts, rfl⟩ := ih has
    exact ⟨i :: is, by simp [ht, hts, Word.token], rfl⟩

theorem exists_commas {α ι : Type} {word : α → Word} {token : ι → Token} {value : ι → α}
    {as : List α} (hne : as ≠ []) (h : ∀ a ∈ as, ∃ i, token i = (word a).token ∧ value i = a) :
    ∃ (first : ι) (more : List ι), commaTokens token first more =
      (commaWords word as).map Word.token ∧ (first :: more).map value = as := by
  cases as with
  | nil => exact absurd rfl hne
  | cons a as =>
    obtain ⟨ha, has⟩ := List.forall_mem_cons.mp h
    obtain ⟨i, ht, rfl⟩ := ha
    obtain ⟨is, hts, rfl⟩ := exists_more has
    exact ⟨i, is, by simp [commaTokens, commaWords, ht, hts], rfl⟩

theorem exists_keys {keys : List String} (h : keys ≠ []) :
    ∃ (first : String) (more : List String), commaTokens Token.string first more =
      (commaWords Word.string keys).map Word.token ∧ (first :: more).map id = keys :=
  exists_commas h fun k _ => ⟨k, rfl, rfl⟩

theorem exists_names {keys : List String} (h : keys ≠ []) :
    ∃ (first : Item) (more : List Item), commaTokens Item.token first more =
      (commaWords Word.string keys).map Word.token ∧
      (first :: more).map Item.selector = keys.map .name := by
  obtain ⟨first, more, ht, hv⟩ := exists_keys h
  refine ⟨.name first, more.map .name, ?_, ?_⟩
  · simp [← ht, commaTokens, List.flatMap_map, Item.token]
  · simp [← hv, Item.selector]

theorem exists_enclosed {e : Expr} (h : e.Meets sp.correct) (s : Symbol) :
    ∃ c : Chain 0, .symbol .bracketOpen ::
        (.symbol s :: (c.tokens ++ [.symbol .parenClose]) ++ [.symbol .bracketClose]) =
      (enclosed s (sp.expr e)).map Word.token ∧ c.expr = e := by
  obtain ⟨c, ht, he⟩ := exists_chain_expr e h
  exact ⟨c, by simp [enclosed, bracketed, ht, Word.token], he⟩

/-- What can follow `..` is a member or a group. -/
theorem exists_target {s : Step} (ht : s.isTarget = true) (hf : s.Filled)
    (h : s.Meets sp.correct) :
    (∃ m : Member, sp.step s = .symbol .dot :: sp.target s ∧
      [m.token] = (sp.target s).map Word.token ∧ m.step = s) ∨
    (∃ g : Group, sp.step s = sp.target s ∧
      g.tokens = (sp.target s).map Word.token ∧ g.step = s) := by
  cases s with
  | root => cases ht
  | recurse => cases ht
  | coerce c => cases ht
  | member name =>
    refine .inl ?_
    by_cases hn : isIdentifier name = true
    · exact ⟨.name name, rfl, by simp [target, memberWord, hn, Member.token, Word.token], rfl⟩
    · exact ⟨.quoted name, rfl, by simp [target, memberWord, hn, Member.token, Word.token], rfl⟩
  | wildcard => exact .inl ⟨.star, rfl, rfl, rfl⟩
  | index i =>
    obtain ⟨p, hp, rfl⟩ := exists_position h
    refine .inr ⟨.bracket (.items (.position p) []), rfl, ?_, rfl⟩
    simp [Group.tokens, Body.tokens, commaTokens, Item.token, hp, target, bracketed, Word.token]
  | slice start stop =>
    obtain ⟨p, hp, rfl⟩ := exists_bound h.1
    obtain ⟨q, hq, rfl⟩ := exists_bound h.2
    refine .inr ⟨.bracket (.slice p q), rfl, ?_, rfl⟩
    simp [Group.tokens, Body.tokens, hp, hq, target, bracketed, Word.token]
  | union selectors =>
    obtain ⟨hl, i, hi⟩ := hf
    obtain ⟨first, more, hc, hv⟩ :=
      exists_commas (List.ne_nil_of_mem hi) fun s hs => exists_item (h s hs)
    refine .inr ⟨.bracket (.items first more), rfl, ?_, ?_⟩
    · simp [Group.tokens, Body.tokens, hc, target, bracketed, Word.token]
    · simp only [Group.step, Body.step, Item.listStep_eq_ofSelectors, hv,
        Step.ofSelectors_union hl hi]
  | filter e =>
    obtain ⟨c, hc, rfl⟩ := exists_enclosed h .filterOpen
    exact .inr ⟨.bracket (.filter c), rfl, hc, rfl⟩
  | map e =>
    obtain ⟨c, hc, rfl⟩ := exists_enclosed h .mapOpen
    exact .inr ⟨.bracket (.map c), rfl, hc, rfl⟩
  | computed e =>
    obtain ⟨c, hc, rfl⟩ := exists_enclosed h .parenOpen
    exact .inr ⟨.bracket (.computed c), rfl, hc, rfl⟩
  | tuple keys =>
    obtain ⟨first, more, hc, hv⟩ := exists_names hf
    refine .inr ⟨.bracket (.items first more), rfl, ?_, ?_⟩
    · simp [Group.tokens, Body.tokens, hc, target, bracketed, Word.token]
    · simp only [Group.step, Body.step, Item.listStep_eq_ofSelectors, hv, Step.ofSelectors_tuple]
  | record keys =>
    obtain ⟨first, more, hc, hv⟩ := exists_keys hf
    refine .inr ⟨.brace first more, rfl, ?_, ?_⟩
    · simp [Group.tokens, hc, target, Word.token]
    · simpa [Group.step] using hv

/-! ## Paths -/

theorem exists_segments (more : List Step) (hf : Step.Following more)
    (h : ∀ s ∈ more, s.Meets sp.correct) :
    ∃ segments : List Segment, (∀ s ∈ segments, s ≠ .descendNothing) ∧
      segments.flatMap Segment.tokens = (sp.steps more).map Word.token ∧
      segments.flatMap Segment.steps = more := by
  fun_induction sp.steps more with
  | case1 => exact ⟨[], by simp, rfl, rfl⟩
  | case2 s more ih =>
    -- a recursion and the step behind it are one segment
    obtain ⟨_, hs, hm⟩ := by simpa [List.forall_mem_cons] using h
    obtain ⟨_, _, hcons, ht, hl, hfollowing⟩ := Step.following_recurse.mp hf
    cases hcons
    obtain ⟨segments, hn, htokens, rfl⟩ := ih hfollowing hm
    rcases exists_target ht hl hs with ⟨m, _, hm, rfl⟩ | ⟨g, _, hg, rfl⟩
    · refine ⟨.descendMember m :: segments, by simpa using hn, ?_, rfl⟩
      simp [Segment.tokens, Word.token, ← hm, htokens]
    · refine ⟨.descendGroup g :: segments, by simpa using hn, ?_, rfl⟩
      simp [Segment.tokens, Word.token, ← hg, htokens]
  | case3 s more hne ih =>
    obtain ⟨hs, hm⟩ := List.forall_mem_cons.mp h
    obtain ⟨segments, hn, htokens, rfl⟩ := ih hf.tail hm
    have hl := hf.filled s (by simp)
    cases ht : s.isTarget with
    | true =>
      rcases exists_target ht hl hs with ⟨m, hstep, hm, rfl⟩ | ⟨g, hstep, hg, rfl⟩
      · refine ⟨.dot m :: segments, by simpa using hn, ?_, rfl⟩
        simp [Segment.tokens, Word.token, hstep, ← hm, htokens]
      · refine ⟨.group g :: segments, by simpa using hn, ?_, rfl⟩
        simp [Segment.tokens, hstep, ← hg, htokens]
    | false =>
      cases s with
      | root => exact absurd (by simp) hf.no_root
      | recurse =>
        obtain ⟨t, after, hcons, _⟩ := Step.following_recurse.mp hf
        exact absurd hcons (hne t after rfl)
      | coerce c =>
        refine ⟨.coercion c :: segments, by simpa using hn, ?_, rfl⟩
        simp [Segment.tokens, step, target, Word.token, Coercion.name_eq_word, htokens]
      | _ => cases ht

theorem exists_path {ss : List Step} (hw : Step.WellFormed ss)
    (h : ∀ s ∈ ss, s.Meets sp.correct) :
    ∃ p : Path, p.tokens = (sp.steps ss).map Word.token ++ [.finish] ∧ p.steps = ss := by
  obtain ⟨more, rfl, hf⟩ := hw
  obtain ⟨_, hm⟩ := List.forall_mem_cons.mp h
  obtain ⟨segments, hn, ht, rfl⟩ := exists_segments more hf hm
  refine ⟨⟨segments, bareAllowed_of_forall hn⟩, ?_, rfl⟩
  simp [Path.tokens, steps, step, target, Word.token, ht]

theorem ofText_print {ss : List Step} (h : ∀ s ∈ ss, s.Meets .printable) :
    Token.ofText (sp.print ss) = .ok ((sp.steps ss).map Word.token ++ [.finish]) := by
  rw [Token.ofText, print, String.toList_ofList]
  exact Token.readAll_spaced _ (readable_steps ss h).mono

end Spelling

/-! ## Spellings -/

instance : Nonempty Lexeme := ⟨.ofNat false 0⟩

/-- A spelling with a right lexeme wherever there is one. -/
noncomputable def Spelling.choice : Spelling where
  numeral d := Classical.epsilon fun x => x.value = d
  position i := Classical.epsilon fun x => x.value.isIntegral = true ∧ x.value.toInt64 = i

theorem Spelling.printable_implies_correct : Leaves.printable.Implies choice.correct where
  text _ _ := trivial
  name _ _ := trivial
  number _ h := Classical.epsilon_spec h
  position i h := by
    obtain ⟨x, rfl⟩ := h
    exact Classical.epsilon_spec x.exists_whole

/-! ## The round trip -/

/-- Well-formed steps can be printed, and under every spelling that gets their numbers right what is
printed compiles to just these steps. -/
theorem compile_print {ss : List Step} (hw : Step.WellFormed ss)
    (h : ∀ s ∈ ss, s.Meets .printable) :
    (∃ sp : Spelling, ∀ s ∈ ss, s.Meets sp.correct) ∧
    ∀ sp : Spelling, (∀ s ∈ ss, s.Meets sp.correct) →
      Query.compile (sp.print ss) = .ok ⟨sp.print ss, ss⟩ := by
  constructor
  · exact ⟨.choice, fun s hs => Step.Meets.mono Spelling.printable_implies_correct (h s hs)⟩
  · intro sp hsp
    obtain ⟨p, ht, hs⟩ := Spelling.exists_path hw hsp
    have hp : Step.ofTokens ((sp.steps ss).map Word.token ++ [.finish]) = .ok ss := by
      rw [Grammar.ofTokens_iff_derivation]
      exact ⟨p, [], by rw [List.append_nil, ht], hs⟩
    simp only [Query.compile, Query.parse, Spelling.ofText_print h, bind, Except.bind, hp,
      Except.mapError, pure, Except.pure]

/-- Steps with a number in a filter and a position in a union. -/
def Step.sample : List Step := [
  .root, .recurse, .member "it's",
  .filter (.binary .less (.property .current "price")
    (.literal (.number (Lexeme.ofNat true 5).value))),
  .union [.index (-1), .name "a"]]

/-- Its numbers and positions. -/
def Spelling.sample : Spelling := ⟨fun _ => .ofNat true 5, fun _ => .ofNat true 1⟩

theorem compile_print_sample :
    Step.WellFormed Step.sample ∧ (∀ s ∈ Step.sample, s.Meets .printable) ∧
    Spelling.sample.print Step.sample =
      "$ .. \"it's\" [ ?( ( @ . price ) < -5 ) ] [ -1 , 'a' ]" ∧
    Query.compile (Spelling.sample.print Step.sample) =
      .ok ⟨Spelling.sample.print Step.sample, Step.sample⟩ := by
  have hw : Step.WellFormed Step.sample := by
    refine ⟨_, rfl, by simp, ?_, by simp [Step.Filled]⟩
    rintro (_ | ⟨_, _ | ⟨_, _ | ⟨_, _ | ⟨_, before⟩⟩⟩⟩) after h <;> simp at h
    subst h
    exact ⟨_, rfl, rfl⟩
  have h1 : Representable (1 * Double.one) := Double.representable_mul_one (by decide)
  have hi := Lexeme.toInt64_ofNat true h1
  have hp : ∀ s ∈ Step.sample, s.Meets .printable := by
    simp only [Step.sample, List.forall_mem_cons]
    refine ⟨trivial, trivial, .inr (by decide), ⟨⟨trivial, rfl⟩, _, rfl⟩, ?_, by simp⟩
    simp only [Step.Meets, List.forall_mem_cons]
    exact ⟨⟨_, hi⟩, .inl (by decide), by simp⟩
  have hc : ∀ s ∈ Step.sample, s.Meets Spelling.sample.correct := by
    simp only [Step.sample, List.forall_mem_cons]
    refine ⟨trivial, trivial, trivial, ⟨⟨trivial, trivial⟩, rfl⟩, ?_, by simp⟩
    simp only [Step.Meets, List.forall_mem_cons]
    exact ⟨⟨Lexeme.isIntegral_ofNat true h1, hi⟩, trivial, by simp⟩
  exact ⟨hw, hp, rfl, (compile_print hw hp).2 _ hc⟩

end PathQuery
