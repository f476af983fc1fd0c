import Mathlib.Data.Set.Subsingleton
import PathQuery.Proofs.Grammar.Path
import PathQuery.Proofs.Grammar.Unambiguity
import PathQuery.Query

/-! Which lists of tokens are paths.
Exactly those whose tokens up to the first end have a derivation, and the steps are its translation;
there is one derivation only. -/
namespace PathQuery

/-- The tokens up to the first that ends a path, with it. -/
def Token.upToFinish : List Token → List Token
  | [] => []
  | .finish :: _ => [.finish]
  | t :: ts => t :: upToFinish ts

namespace Grammar

variable {ts : List Token}

/-! ## The end of a path -/

mutual

theorem finish_notMem_chain {n : Nat} : ∀ c : Chain n, Token.finish ∉ c.tokens
  | .operands _ first more => by
    simp [Chain.tokens, finish_notMem_chain first, finish_notMem_operators more]
  | .unary u => by simp [Chain.tokens, finish_notMem_unary u]

theorem finish_notMem_operators {n : Nat} : ∀ more : Operators n, Token.finish ∉ more.tokens
  | .nil => by simp [Operators.tokens]
  | .comparison _ _ _ operand => by simp [Operators.tokens, finish_notMem_chain operand]
  | .cons _ _ _ operand more => by
    simp [Operators.tokens, finish_notMem_chain operand, finish_notMem_operators more]

theorem finish_notMem_unary : ∀ u : Unary, Token.finish ∉ u.tokens
  | .minus operand => by simp [Unary.tokens, finish_notMem_unary operand]
  | .not operand => by simp [Unary.tokens, finish_notMem_unary operand]
  | .negated e => by simp [Unary.tokens, finish_notMem_chain e]
  | .access p a => by simp [Unary.tokens, finish_notMem_primary p, finish_notMem_accessors a]

theorem finish_notMem_primary : ∀ p : Primary, Token.finish ∉ p.tokens
  | .current => by simp [Primary.tokens]
  | .root => by simp [Primary.tokens]
  | .literal l => by
    unfold Primary.tokens Literal.token
    split <;> simp
  | .coerce _ arg => by simp [Primary.tokens, finish_notMem_chain arg]
  | .enclosed e => by simp [Primary.tokens, finish_notMem_chain e]

theorem finish_notMem_accessors : ∀ a : Accessors, Token.finish ∉ a.tokens
  | .nil => by simp [Accessors.tokens]
  | .property _ more => by simp [Accessors.tokens, finish_notMem_accessors more]
  | .call _ args more => by
    simp [Accessors.tokens, finish_notMem_arguments args, finish_notMem_accessors more]
  | .element i more => by
    simp [Accessors.tokens, finish_notMem_chain i, finish_notMem_accessors more]

theorem finish_notMem_arguments : ∀ args : Arguments, Token.finish ∉ args.tokens
  | .none => by simp [Arguments.tokens]
  | .some first more => by
    simp [Arguments.tokens, finish_notMem_chain first, finish_notMem_moreArguments more]

theorem finish_notMem_moreArguments : ∀ args : MoreArguments, Token.finish ∉ args.tokens
  | .nil => by simp [MoreArguments.tokens]
  | .cons next more => by
    simp [MoreArguments.tokens, finish_notMem_chain next, finish_notMem_moreArguments more]

end

theorem finish_notMem_commaTokens {ι : Type} {token : ι → Token} (h : ∀ i, token i ≠ .finish)
    (first : ι) (more : List ι) : Token.finish ∉ commaTokens token first more := by
  simp [commaTokens, fun i => (h i).symm]

theorem finish_notMem_body (b : Body) : Token.finish ∉ b.tokens := by
  cases b with
  | filter e => simp [Body.tokens, finish_notMem_chain e]
  | map e => simp [Body.tokens, finish_notMem_chain e]
  | computed e => simp [Body.tokens, finish_notMem_chain e]
  | star => simp [Body.tokens]
  | slice start stop => cases start <;> cases stop <;> simp [Body.tokens, Position.token]
  | items first more =>
    have hi : ∀ i : Item, i.token ≠ .finish := by
      intro i
      cases i <;> simp [Item.token, Position.token]
    exact finish_notMem_commaTokens hi first more

theorem finish_notMem_group (g : Group) : Token.finish ∉ g.tokens := by
  cases g with
  | bracket b => simp [Group.tokens, finish_notMem_body b]
  | brace first more =>
    have : ∀ s, Token.string s ≠ .finish := by simp
    simp [Group.tokens, finish_notMem_commaTokens this first more]

theorem finish_notMem_segment (s : Segment) : Token.finish ∉ s.tokens := by
  cases s with
  | dot m => cases m <;> simp [Segment.tokens, Member.token]
  | descendMember m => cases m <;> simp [Segment.tokens, Member.token]
  | descendGroup g => simp [Segment.tokens, finish_notMem_group g]
  | descendNothing => simp [Segment.tokens]
  | group g => exact finish_notMem_group g
  | coercion c => simp [Segment.tokens]

theorem upToFinish_append (ts rest : List Token) (h : Token.finish ∉ ts) :
    Token.upToFinish (ts ++ .finish :: rest) = ts ++ [.finish] := by
  induction ts with
  | nil => rfl
  | cons t ts ih =>
    obtain ⟨ht, h⟩ := not_or.mp (List.mem_cons.not.mp h)
    rw [List.cons_append, Token.upToFinish, ih h]
    · rfl
    · rintro rfl
      exact ht rfl

theorem exists_append_upToFinish (ts : List Token) :
    ∃ rest, Token.upToFinish ts ++ rest = ts := by
  fun_induction Token.upToFinish ts with
  | case1 => exact ⟨[], rfl⟩
  | case2 rest => exact ⟨rest, rfl⟩
  | case3 t ts _ ih =>
    obtain ⟨rest, h⟩ := ih
    exact ⟨rest, by rw [List.cons_append, h]⟩

theorem tokens_eq_upToFinish (p : Path) :
    (∃ rest, p.tokens ++ rest = ts) ↔ p.tokens = Token.upToFinish ts := by
  constructor
  · rintro ⟨rest, rfl⟩
    have hp : Token.finish ∉ .symbol .root :: p.segments.flatMap Segment.tokens := by
      simp [finish_notMem_segment]
    have := upToFinish_append _ rest hp
    simpa [Path.tokens] using this.symm
  · intro h
    rw [h]
    exact exists_append_upToFinish ts

/-! ## One derivation only -/

theorem position_token_inj {p q : Position} : p.token = q.token ↔ p = q := by
  simp [Position.token, Position.ext_iff]

theorem item_token_inj {i j : Item} : i.token = j.token ↔ i = j := by
  constructor
  · intro h
    cases i <;> cases j
    · exact congrArg Item.position (position_token_inj.mp h)
    · cases h
    · cases h
    · cases h
      rfl
  · rintro rfl
    rfl

theorem member_token_inj {m n : Member} : m.token = n.token ↔ m = n := by
  cases m <;> cases n <;> simp [Member.token]

theorem moreTokens_inj {ι : Type} {token : ι → Token} (h : Function.Injective token)
    (more more' : List ι)
    (he : more.flatMap (fun i => [.symbol .comma, token i]) =
      more'.flatMap (fun i => [.symbol .comma, token i])) : more = more' := by
  induction more generalizing more' with
  | nil => cases more' <;> simp_all
  | cons i more ih =>
    cases more' with
    | nil => simp at he
    | cons j more' =>
      obtain ⟨hi, hm⟩ : token i = token j ∧ _ := by simpa using he
      rw [h hi, ih more' hm]

theorem commaTokens_inj {ι : Type} {token : ι → Token} (h : Function.Injective token)
    {first first' : ι} {more more' : List ι}
    (he : commaTokens token first more = commaTokens token first' more') :
    first = first' ∧ more = more' := by
  obtain ⟨hf, hm⟩ := List.cons.inj he
  exact ⟨h hf, moreTokens_inj h more more' hm⟩

theorem slice_ne_symbol {start stop : Option Position} {s : Symbol} {ts : List Token}
    (hs : s ≠ .colon) : (Body.slice start stop).tokens ≠ .symbol s :: ts := by
  cases start with
  | none => simp [Body.tokens, hs.symm]
  | some p => simp [Body.tokens, Position.token]

theorem items_ne_symbol {first : Item} {more : List Item} {s : Symbol} {ts : List Token} :
    (Body.items first more).tokens ≠ .symbol s :: ts := by
  cases first <;> simp [Body.tokens, commaTokens, Item.token, Position.token]

theorem slice_ne_items {start stop : Option Position} {first : Item} {more : List Item} :
    (Body.slice start stop).tokens ≠ (Body.items first more).tokens := by
  cases start with
  | none => exact items_ne_symbol.symm
  | some p => cases more <;> simp [Body.tokens, commaTokens]

theorem slice_unique {start stop start' stop' : Option Position}
    (h : (Body.slice start stop).tokens = (Body.slice start' stop').tokens) :
    start = start' ∧ stop = stop' := by
  cases start <;> cases start' <;> cases stop <;> cases stop' <;>
    simp_all [Body.tokens, Position.token, Position.ext_iff]

theorem body_unique : ∀ b c : Body, b.tokens = c.tokens → b = c
  | .filter e, c, h => by
    cases c with
    | filter e' => rw [chain_unique e e' (by simpa [Body.tokens] using h)]
    | slice => exact absurd h.symm (slice_ne_symbol (by decide))
    | items => exact absurd h.symm items_ne_symbol
    | _ => simp [Body.tokens] at h
  | .map e, c, h => by
    cases c with
    | map e' => rw [chain_unique e e' (by simpa [Body.tokens] using h)]
    | slice => exact absurd h.symm (slice_ne_symbol (by decide))
    | items => exact absurd h.symm items_ne_symbol
    | _ => simp [Body.tokens] at h
  | .computed e, c, h => by
    cases c with
    | computed e' => rw [chain_unique e e' (by simpa [Body.tokens] using h)]
    | slice => exact absurd h.symm (slice_ne_symbol (by decide))
    | items => exact absurd h.symm items_ne_symbol
    | _ => simp [Body.tokens] at h
  | .star, c, h => by
    cases c with
    | star => rfl
    | slice => exact absurd h.symm (slice_ne_symbol (by decide))
    | items => exact absurd h.symm items_ne_symbol
    | _ => simp [Body.tokens] at h
  | .slice start stop, c, h => by
    cases c with
    | slice start' stop' =>
      obtain ⟨rfl, rfl⟩ := slice_unique h
      rfl
    | items => exact absurd h slice_ne_items
    | _ => exact absurd h (slice_ne_symbol (by decide))
  | .items first more, c, h => by
    cases c with
    | items first' more' =>
      obtain ⟨rfl, rfl⟩ := commaTokens_inj (fun _ _ => item_token_inj.mp) h
      rfl
    | slice => exact absurd h.symm slice_ne_items
    | _ => exact absurd h items_ne_symbol

/-- Groups that come first among the same tokens are the same. -/
theorem group_unique {g g' : Group} {rest rest' : List Token}
    (h : g.tokens ++ rest = g'.tokens ++ rest') : g = g' ∧ rest = rest' := by
  cases g with
  | bracket b =>
    cases g' with
    | bracket c =>
      have h : b.tokens ++ .symbol .bracketClose :: rest =
          c.tokens ++ .symbol .bracketClose :: rest' := by
        simpa [Group.tokens] using h
      obtain ⟨hb, hr⟩ := split_of_reads h (reads_body b rest) (reads_body c rest')
      obtain rfl := body_unique b c hb
      exact ⟨rfl, by simpa using hr⟩
    | brace => simp [Group.tokens] at h
  | brace first more =>
    cases g' with
    | bracket => simp [Group.tokens] at h
    | brace first' more' =>
      have h : commaTokens Token.string first more ++ .symbol .braceClose :: rest =
          commaTokens Token.string first' more' ++ .symbol .braceClose :: rest' := by
        simpa [Group.tokens] using h
      have hr := reads_brace first more rest
      rw [h] at hr
      obtain ⟨_, rfl⟩ := hr.unique (reads_brace first' more' rest')
      have he := List.append_cancel_right h
      obtain ⟨rfl, rfl⟩ := commaTokens_inj (fun _ _ => by simp) he
      exact ⟨rfl, rfl⟩

theorem startsTarget_member (m : Member) : startsTarget m.token = true := by
  cases m <;> rfl

theorem startsTarget_group (g : Group) (rest : List Token) :
    ∃ t ∈ (g.tokens ++ rest).head?, startsTarget t = true := by
  cases g <;> exact ⟨_, rfl, rfl⟩

theorem member_ne_group {m : Member} {g : Group} {rest rest' : List Token} :
    m.token :: rest ≠ g.tokens ++ rest' := by
  cases m <;> cases g <;> simp [Member.token, Group.tokens]

theorem group_ne_symbol {g : Group} {s : Symbol} {rest rest' : List Token}
    (hs : s = .dot ∨ s = .recurse) : g.tokens ++ rest ≠ .symbol s :: rest' := by
  rcases hs with rfl | rfl <;> cases g <;> simp [Group.tokens]

theorem group_ne_coercion {g : Group} {name : String} {rest rest' : List Token} :
    g.tokens ++ rest ≠ .coercion name :: rest' := by
  cases g <;> simp [Group.tokens]

/-- Segments that come first among the same tokens are the same. -/
theorem segment_unique {rest rest' : List Token} : ∀ {s s' : Segment}, s.Ends rest → s'.Ends rest' →
    s.tokens ++ rest = s'.tokens ++ rest' → s = s' ∧ rest = rest'
  | .dot m, s', _, _, h => by
    cases s' with
    | dot m' => simpa [Segment.tokens, member_token_inj] using h
    | group => exact absurd h.symm (group_ne_symbol (by simp))
    | _ => simp [Segment.tokens] at h
  | .descendMember m, s', _, hs', h => by
    cases s' with
    | descendMember m' => simpa [Segment.tokens, member_token_inj] using h
    | descendGroup => exact absurd (List.cons.inj h).2 member_ne_group
    | descendNothing =>
      -- nothing that a member could be may follow a bare recursion
      obtain rfl : m.token :: rest = rest' := (List.cons.inj h).2
      have := hs' rfl _ rfl
      simp [startsTarget_member] at this
    | group => exact absurd h.symm (group_ne_symbol (by simp))
    | _ => simp [Segment.tokens] at h
  | .descendGroup g, s', _, hs', h => by
    cases s' with
    | descendMember => exact absurd (List.cons.inj h).2.symm member_ne_group
    | descendGroup g' => simpa using group_unique (List.cons.inj h).2
    | descendNothing =>
      obtain rfl : g.tokens ++ rest = rest' := (List.cons.inj h).2
      obtain ⟨t, ht, hg⟩ := startsTarget_group g rest
      simp [hs' rfl t ht] at hg
    | group => exact absurd h.symm (group_ne_symbol (by simp))
    | _ => simp [Segment.tokens] at h
  | .descendNothing, s', hs, _, h => by
    cases s' with
    | descendMember m' =>
      obtain rfl : rest = m'.token :: rest' := (List.cons.inj h).2
      have := hs rfl _ rfl
      simp [startsTarget_member] at this
    | descendGroup g' =>
      obtain rfl : rest = g'.tokens ++ rest' := (List.cons.inj h).2
      obtain ⟨t, ht, hg⟩ := startsTarget_group g' rest'
      simp [hs rfl t ht] at hg
    | descendNothing => exact ⟨rfl, (List.cons.inj h).2⟩
    | group => exact absurd h.symm (group_ne_symbol (by simp))
    | _ => simp [Segment.tokens] at h
  | .group g, s', _, _, h => by
    cases s' with
    | group g' => simpa using group_unique h
    | coercion => exact absurd h group_ne_coercion
    | _ => exact absurd h (group_ne_symbol (by simp))
  | .coercion c, s', _, _, h => by
    cases s' with
    | coercion c' => simpa [Segment.tokens] using h
    | group => exact absurd h.symm group_ne_coercion
    | _ => simp [Segment.tokens] at h

theorem segment_ne_finish (s : Segment) {rest rest' : List Token} :
    s.tokens ++ rest ≠ .finish :: rest' := by
  cases s with
  | group g => cases g <;> simp [Segment.tokens, Group.tokens]
  | _ => simp [Segment.tokens]

theorem segments_unique (segments segments' : List Segment) (hb : BareAllowed segments)
    (hb' : BareAllowed segments') (h : segments.flatMap Segment.tokens ++ [.finish] =
      segments'.flatMap Segment.tokens ++ [.finish]) : segments = segments' := by
  induction segments generalizing segments' with
  | nil =>
    cases segments' with
    | nil => rfl
    | cons s' segments' => exact absurd (by simpa using h.symm) (segment_ne_finish s')
  | cons s segments ih =>
    cases segments' with
    | nil => exact absurd (by simpa using h) (segment_ne_finish s)
    | cons s' segments' =>
      rw [List.flatMap_cons, List.flatMap_cons, List.append_assoc, List.append_assoc] at h
      obtain ⟨rfl, hm⟩ := segment_unique hb.1 hb'.1 h
      rw [ih segments' hb.2 hb'.2 hm]

theorem path_unique {p q : Path} (h : p.tokens = q.tokens) : p = q := by
  cases p with
  | mk segments hb =>
    cases q with
    | mk segments' hb' =>
      obtain rfl := segments_unique segments segments' hb hb' (List.cons.inj h).2
      rfl

/-! ## Acceptance -/

/-- Tokens are read as some steps exactly if, up to the first end, they have a derivation with that
translation; and they have one derivation at most. -/
theorem parse_eq_ok_iff (ts : List Token) (steps : List Step) :
    (Query.parse ts = .ok steps ↔
      ∃ p : Path, p.tokens = Token.upToFinish ts ∧ p.steps = steps) ∧
    {p : Path | p.tokens = Token.upToFinish ts}.Subsingleton := by
  constructor
  · calc Query.parse ts = .ok steps
        ↔ Step.ofTokens ts = .ok steps := by
          unfold Query.parse
          cases Step.ofTokens ts <;> simp [Except.mapError]
      _ ↔ ∃ (p : Path) (rest : List Token), p.tokens ++ rest = ts ∧ p.steps = steps :=
          ofTokens_iff_derivation
      _ ↔ ∃ p : Path, p.tokens = Token.upToFinish ts ∧ p.steps = steps := by
          simp [← tokens_eq_upToFinish]
  · intro p hp q hq
    exact path_unique (hp.trans hq.symm)

/-- A position, a name and both together make different steps, operators bind by their levels, what
comes after the end does not matter, and a chain of comparisons has no derivation. -/
theorem parse_eq_ok_iff_sample :
    let zero : Token := .number (.finite .zero)
    let lists : List Token := [.symbol .root, .symbol .bracketOpen, zero, .symbol .bracketClose,
      .symbol .bracketOpen, .string "a", .symbol .bracketClose, .symbol .bracketOpen, zero,
      .symbol .comma, .string "a", .symbol .bracketClose]
    let operators : List Token := [.symbol .bracketOpen, .symbol .parenOpen, .symbol .current,
      .symbol .plus, .symbol .root, .symbol .star, .symbol .root, .symbol .equal, .symbol .current,
      .symbol .parenClose, .symbol .bracketClose, .finish]
    let steps : List Step := [.root, .index 0, .tuple ["a"], .union [.index 0, .name "a"],
      .computed (.binary .equal (.binary .add .current (.binary .mul .root .root)) .current)]
    let chained : List Token := [.symbol .root, .symbol .bracketOpen, .symbol .parenOpen,
      .symbol .current, .symbol .equal, .symbol .current, .symbol .equal, .symbol .current,
      .symbol .parenClose, .symbol .bracketClose, .finish]
    Query.parse (lists ++ operators ++ [.symbol .comma]) = .ok steps ∧
      (∃ p : Path, p.tokens = lists ++ operators ∧ p.steps = steps) ∧
      ∀ p : Path, p.tokens ≠ chained := by
  intro zero lists operators steps chained
  let position : Position := ⟨.zero, Nat.dvd_zero _⟩
  have hindex : position.index = 0 := by
    simp [position, Position.index, FiniteDouble.signed, FiniteDouble.zero]
  let current : Chain 5 := .unary (.access .current .nil)
  let root : Chain 5 := .unary (.access .root .nil)
  let product : Chain 4 := .operands (by decide) root (.cons .mul rfl (by decide) root .nil)
  let sum : Chain 3 := .operands (by decide) (.operands (by decide) current .nil)
    (.cons .add rfl (by decide) product .nil)
  let comparison : Chain 2 := .operands (by decide) sum (.comparison .equal rfl rfl
    (.operands (by decide) (.operands (by decide) current .nil) .nil))
  let whole : Chain 0 := .operands (by decide) (.operands (by decide) comparison .nil) .nil
  let p : Path := ⟨[.group (.bracket (.items (.position position) [])),
    .group (.bracket (.items (.name "a") [])),
    .group (.bracket (.items (.position position) [.name "a"])),
    .group (.bracket (.computed whole))], bareAllowed_of_forall (by simp)⟩
  have hsteps : p.steps = steps :=
    calc p.steps = [.root, .index position.index, .tuple ["a"],
          .union [.index position.index, .name "a"], .computed whole.expr] := rfl
      _ = steps := by
        rw [hindex]
        rfl
  refine ⟨(parse_eq_ok_iff _ steps).1.mpr ⟨p, rfl, hsteps⟩, ⟨p, rfl, hsteps⟩, fun q hq => ?_⟩
  have hrejected : Query.parse chained = .error (.unexpected (.symbol .equal)) := by
    with_unfolding_all rfl
  have haccepted := (parse_eq_ok_iff chained q.steps).1.mpr ⟨q, hq, rfl⟩
  cases hrejected.symm.trans haccepted

end Grammar
end PathQuery
