import Mathlib.Order.Bounds.Defs
import PathQuery.Proofs.Grammar.PathBlame
import PathQuery.Query

/-! What the error of a rejected path names.
The tokens before the fault are the longest that some path begins with, since every token list that
agrees with the path up to the first token after them is rejected too. The error names that token,
but for commas, and which comma is named instead can be told from the tokens alone. -/
namespace PathQuery.Grammar
open PathQuery.Expr Step Phrase

variable {ts : List Token} {k : Token.Kind}

/-! ## Commas that separate keys -/

theorem Keys.exists_group {keys : List Token} (h : Keys keys) :
    ∃ (g : Group) (close : Symbol), g.tokens = keys ++ [.symbol close] := by
  cases h with
  | bracket first more =>
    exact ⟨.bracket (.items first more), .bracketClose, by simp [Group.tokens, Body.tokens]⟩
  | brace first more => exact ⟨.brace first more, .braceClose, by simp [Group.tokens]⟩

/-- After a comma comes a further item, or the comma is left unread. -/
theorem items_comma {ι α : Type} {token : ι → Token} {item? : Token → Option α} {value : ι → α}
    {close : Symbol} (d : Denotes token item? value) (hclose : close ≠ .comma) (first : ι)
    (more : List ι) (rest : List Token) :
    (∃ i mid, rest = token i :: mid) ∨
      FailsItems item? close (commaTokens token first more ++ .symbol .comma :: rest)
        (.symbol .comma) := by
  by_cases hn : ∀ t ∈ rest.head?, item? t = none
  · exact .inr (failsItems_comma d hclose first more hn)
  · left
    simp only [not_forall] at hn
    obtain ⟨t, ht, hn⟩ := hn
    obtain ⟨mid, rfl⟩ := List.head?_eq_some_iff.mp ht
    obtain ⟨a, ha⟩ := Option.ne_none_iff_exists'.mp hn
    obtain ⟨i, rfl, -⟩ := d.exists_item t a ha
    exact ⟨i, mid, rfl⟩

theorem startsItems_commaTokens (first : Item) (more : List Item) (rest : List Token) :
    StartsItems (commaTokens Item.token first more ++ .symbol .comma :: rest) where
  symbol s _ := by cases first <;> simp [commaTokens, Item.token, Position.token]
  bound := readBound_items first more (by simp)

/-- After a comma comes a further key, or the comma is blamed. -/
theorem Keys.comma {keys : List Token} (h : Keys keys) (rest : List Token) :
    (∃ t mid, rest = t :: mid ∧ Keys (keys ++ [.symbol .comma, t])) ∨
      FailsGroup (keys ++ .symbol .comma :: rest) (.symbol .comma) := by
  cases h with
  | bracket first more =>
    have hclose : Symbol.bracketClose ≠ .comma := by decide
    rcases items_comma denotes_item hclose first more rest with ⟨i, mid, rfl⟩ | hf
    · refine .inl ⟨i.token, mid, rfl, ?_⟩
      simpa [commaTokens] using Keys.bracket first (more ++ [i])
    · exact .inr (.inl ⟨_, rfl, readBracket_fails.mpr (.inr (.inr (.inr
        ⟨startsItems_commaTokens first more rest, hf⟩)))⟩)
  | brace first more =>
    have hclose : Symbol.braceClose ≠ .comma := by decide
    rcases items_comma denotes_key hclose first more rest with ⟨s, mid, rfl⟩ | hf
    · refine .inl ⟨.string s, mid, rfl, ?_⟩
      simpa [commaTokens] using Keys.brace first (more ++ [s])
    · exact .inr (.inr ⟨_, rfl, readBrace_fails.mpr hf⟩)

theorem segment_tokens_ne_nil (s : Segment) : s.tokens ≠ [] := by
  cases s with
  | group g => cases g <;> simp [Segment.tokens, Group.tokens]
  | _ => simp [Segment.tokens]

/-- Segments with nothing bare among them are read before a group that fails. -/
theorem failsSegments_of_group {segments : List Segment} {rest : List Token}
    (hb : BareAllowed segments) (h : FailsGroup rest k) :
    FailsSegments (segments.flatMap Segment.tokens ++ rest) k := by
  induction segments with
  | nil => exact failsSegments_iff.mpr (.inl (readSegment?_fails.mpr (.inr (.inr (.inl h)))))
  | cons s segments ih =>
    rw [List.flatMap_cons, List.append_assoc]
    by_cases hs : s.Ends (segments.flatMap Segment.tokens ++ rest)
    · exact failsSegments_iff.mpr (.inr (.inr ⟨_, _, reads_segment s hs, ih hb.2⟩))
    · obtain ⟨rfl, hn⟩ := Classical.not_imp.mp hs
      cases segments with
      | nil =>
        -- the last `..` is the start of what fails
        exact failsSegments_iff.mpr (.inl (readSegment?_fails.mpr (.inr (.inl ⟨rest, rfl, h⟩))))
      | cons s' segments =>
        obtain ⟨t, ts, ht⟩ := List.exists_cons_of_ne_nil (segment_tokens_ne_nil s')
        have := hb.1 rfl t (by simp [ht])
        exact absurd (by simpa [ht] using this) hn

/-- A comma that separates keys is blamed, or a further key follows it. -/
theorem SeparatesKeys.comma {before : List Token} (h : SeparatesKeys before) (rest : List Token) :
    (∃ t mid, rest = t :: mid ∧ SeparatesKeys (before ++ [.symbol .comma, t])) ∨
      Fails (ofTokens (before ++ .symbol .comma :: rest)) (.symbol .comma) := by
  obtain ⟨_, ⟨segments, keys, hk, rfl⟩, rfl⟩ := h
  rcases hk.comma rest with ⟨t, mid, rfl, hk⟩ | hf
  · exact .inl ⟨t, mid, rfl, _, ⟨segments, _, hk, rfl⟩, by simp⟩
  · obtain ⟨allowed, hb, ht⟩ := exists_bareAllowed segments
    refine .inr (ofTokens_fails.mpr (.inr ⟨_, rfl, ?_⟩))
    have := failsSegments_of_group hb hf
    simpa [ht] using this

/-! ## The error of a path -/

/-- Some tokens that can be parsed begin with these. -/
def Viable (ts : List Token) : Prop := ∃ more steps, Query.parse (ts ++ more) = .ok steps

/-- The comma before `rest` is blamed: it separates keys, or no name follows it. -/
def BlamesComma (before rest : List Token) : Prop :=
  ∃ start, before = start ++ [.symbol .comma] ∧
    (SeparatesKeys start ∨ ∀ name, rest.head? ≠ some (.identifier name))

theorem viable_of_path {before : List Token} {p : Path} {more : List Token}
    (h : p.tokens = before ++ more) : Viable before := by
  have hp : ofTokens (before ++ more) = .ok p.steps :=
    ofTokens_iff_derivation.mpr ⟨p, [], by rw [h, List.append_nil], rfl⟩
  exact ⟨more, p.steps, by rw [Query.parse, hp]; rfl⟩

theorem SeparatesKeys.viable {before : List Token} (h : SeparatesKeys before) : Viable before := by
  obtain ⟨_, ⟨segments, keys, hk, rfl⟩, rfl⟩ := h
  obtain ⟨g, close, hg⟩ := hk.exists_group
  obtain ⟨p, hp⟩ := exists_path (segments ++ [.group g])
  have hp : p.tokens = (.symbol .root :: (segments.flatMap Segment.tokens ++ keys)) ++
      [.symbol close, .finish] := by
    simpa [Segment.tokens, hg] using hp
  exact viable_of_path hp

theorem parse_eq_error_iff : Query.parse ts = .error (.unexpected k) ↔ Fails (ofTokens ts) k := by
  unfold Query.parse Fails
  cases ofTokens ts <;> simp [Except.mapError]

theorem not_fails_of_parse {steps : List Step} (h : Query.parse ts = .ok steps) :
    ¬ Fails (ofTokens ts) k := by
  intro hf
  cases h.symm.trans (parse_eq_error_iff.mpr hf)

/-- The tokens before a fault are the longest viable ones. -/
theorem isGreatest_of_faultAt {before rest : List Token} (h : path.FaultAt before rest k) :
    IsGreatest {j | j ≤ (before ++ rest).length ∧ Viable ((before ++ rest).take j)}
      before.length := by
  constructor
  · obtain ⟨more, p, hp⟩ := h.viable
    exact ⟨by simp, by simpa using viable_of_path hp⟩
  · rintro j ⟨hj, more, steps, hok⟩
    by_contra hlt
    have htake : (before ++ rest).take j = before ++ rest.take (j - before.length) := by
      rw [List.take_append, List.take_of_length_le (by omega)]
    rw [htake, List.append_assoc] at hok
    refine not_fails_of_parse hok (h.fails _ ?_)
    cases rest with
    | nil => exact absurd (by simpa using hj) hlt
    | cons t rest =>
      obtain ⟨n, hn⟩ := Nat.exists_eq_add_of_lt (Nat.lt_of_not_le hlt)
      simp [hn, Nat.add_assoc]

/-- The kind of a fault, from where it is. -/
theorem kind_of_faultAt {before rest : List Token} (h : path.FaultAt before rest k) :
    (BlamesComma before rest → k = .symbol .comma) ∧
      (¬ BlamesComma before rest → k = Token.nextKind rest) := by
  constructor
  · rintro ⟨start, rfl, hs | hn⟩
    · rcases hs.comma rest with ⟨t, mid, rfl, hs⟩ | hf
      · obtain ⟨more, steps, hok⟩ := hs.viable
        have := h.fails (t :: more) rfl
        exact absurd (by simpa [path] using this) (not_fails_of_parse hok)
      · have := h.fails rest rfl
        exact Fails.unique (by simpa [path] using this) hf
    · rcases h.blames with hk | ⟨hk, _⟩
      · rw [hk, blame_comma hn]
      · exact hk
  · intro hn
    rcases h.blames with hk | ⟨_, start, rfl, hs⟩
    · by_cases hb : Settled before
      · rw [hk, blame_settled hb]
      · obtain ⟨start, rfl⟩ := List.getLast?_eq_some_iff.mp (not_not.mp hb)
        obtain ⟨name, hname⟩ : ∃ name, rest.head? = some (.identifier name) := by
          by_contra hname
          exact hn ⟨start, rfl, .inr (not_exists.mp hname)⟩
        obtain ⟨mid, rfl⟩ := List.head?_eq_some_iff.mp hname
        rw [hk, blame_name]
        rfl
    · exact absurd ⟨start, rfl, .inl hs⟩ hn

/-- A rejected path is viable up to some token, and its error names that token, or the end if no
token is left. Only where the token before it is a comma, and this separates keys or no name follows
it, does the error name the comma. -/
theorem parse_error_kind (hc : KnownCalls ts) (hr : ∀ steps, Query.parse ts ≠ .ok steps) :
    ∃ i, IsGreatest {j | j ≤ ts.length ∧ Viable (ts.take j)} i ∧
      (BlamesComma (ts.take i) (ts.drop i) →
        Query.parse ts = .error (.unexpected (.symbol .comma))) ∧
      (¬ BlamesComma (ts.take i) (ts.drop i) →
        Query.parse ts = .error (.unexpected (Token.nextKind (ts.drop i)))) := by
  obtain ⟨k, hk⟩ : ∃ k, Fails (ofTokens ts) k := by
    cases h : ofTokens ts with
    | error k => exact ⟨k, rfl⟩
    | ok steps => exact absurd (by rw [Query.parse, h]; rfl) (hr steps)
  obtain ⟨before, rest, rfl, hf⟩ := fault_path hc hk
  obtain ⟨hcomma, hnext⟩ := kind_of_faultAt hf
  refine ⟨before.length, isGreatest_of_faultAt hf, ?_⟩
  simp only [List.take_left, List.drop_left, parse_eq_error_iff]
  exact ⟨fun h => hcomma h ▸ hk, fun h => hnext h ▸ hk⟩

/-- After the comma in the arguments of a call the unknown name is blamed, not the comma. -/
theorem parse_error_kind_sample :
    let ts : List Token := [.symbol .root, .symbol .bracketOpen, .symbol .filterOpen,
      .symbol .current, .symbol .dot, .identifier "includes", .symbol .parenOpen, .symbol .current,
      .symbol .comma, .identifier "name"]
    KnownCalls ts ∧ (∀ steps, Query.parse ts ≠ .ok steps) ∧
    ∃ i, IsGreatest {j | j ≤ ts.length ∧ Viable (ts.take j)} i ∧
      ¬ BlamesComma (ts.take i) (ts.drop i) ∧
      .error (.unexpected (Token.nextKind (ts.drop i))) = Query.parse ts := by
  intro ts
  have hparse : Query.parse ts = .error (.unexpected .identifier) := by with_unfolding_all rfl
  have hcalls : KnownCalls ts := by
    intro name h
    obtain rfl : name = "includes" := by simpa [ts, List.infix_cons_iff] using h
    rfl
  have hrejected : ∀ steps, Query.parse ts ≠ .ok steps := by simp [hparse]
  obtain ⟨i, hi, hcomma, hnext⟩ := parse_error_kind hcalls hrejected
  have hn : ¬ BlamesComma (ts.take i) (ts.drop i) := by
    intro hb
    cases hparse.symm.trans (hcomma hb)
  exact ⟨hcalls, hrejected, i, hi, hn, (hnext hn).symm⟩

end PathQuery.Grammar
