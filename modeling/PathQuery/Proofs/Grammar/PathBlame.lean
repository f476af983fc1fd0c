import PathQuery.Proofs.Grammar.ExpressionBlame
import PathQuery.Proofs.Grammar.Path
import PathQuery.Proofs.Grammar.PathFailures

/-! Where a path fails.
Beside the faults of expressions there are those of lists in brackets and braces: where no key
follows a comma between keys, the comma is left unread and blamed. -/
namespace PathQuery.Grammar
open PathQuery.Expr Step

/-! ## Commas between keys -/

/-- A bracket or a brace is open, with keys in it and commas between them. -/
inductive Keys : List Token → Prop where
  | bracket (first : Item) (more : List Item) :
      Keys (.symbol .bracketOpen :: commaTokens Item.token first more)
  | brace (first : String) (more : List String) :
      Keys (.symbol .braceOpen :: commaTokens Token.string first more)

/-- Keys after segments. -/
def KeysAfterSegments (ts : List Token) : Prop :=
  ∃ (segments : List Segment) (keys : List Token), Keys keys ∧
    segments.flatMap Segment.tokens ++ keys = ts

/-- A comma after these tokens separates keys: `$` and whole segments come first, then a bracket or
a brace with the keys so far. -/
def SeparatesKeys (before : List Token) : Prop :=
  ∃ ts, KeysAfterSegments ts ∧ .symbol .root :: ts = before

/-! ## Parts of paths -/

namespace Phrase

def items {ι α : Type} (token : ι → Token) (item? : Token → Option α) (close : Symbol) :
    Phrase where
  fails := FailsItems item? close
  derives ts := ∃ first more, commaTokens token first more ++ [.symbol close] = ts
  keys ts := ∃ first more, commaTokens token first more = ts

def bracket : Phrase where
  fails ts k := Fails (readBracket ts) k
  derives ts := ∃ b : Body, b.tokens ++ [.symbol .bracketClose] = ts
  keys ts := ∃ first more, commaTokens Item.token first more = ts

def group : Phrase where
  fails := FailsGroup
  derives ts := ∃ g : Group, g.tokens = ts
  keys := Keys

def segment : Phrase where
  fails ts k := Fails (readSegment? ts) k
  derives ts := ∃ s : Segment, s.tokens = ts
  keys := KeysAfterSegments

def segments : Phrase where
  fails := FailsSegments
  derives ts := ∃ segments : List Segment, segments.flatMap Segment.tokens ++ [.finish] = ts
  keys := KeysAfterSegments

def path : Phrase where
  fails ts k := Fails (ofTokens ts) k
  derives ts := ∃ p : Path, p.tokens = ts
  keys := SeparatesKeys

end Phrase

open Phrase

variable {ts : List Token} {k : Token.Kind}

/-! ## Lists and groups -/

section Items

variable {ι α : Type} {token : ι → Token} {item? : Token → Option α} {value : ι → α}
  {close : Symbol}

theorem settled_commaTokens (d : Denotes token item? value) (first : ι) (more : List ι) :
    Settled (commaTokens token first more) := by
  rcases List.eq_nil_or_concat more with rfl | ⟨more, i, rfl⟩ <;> simp [commaTokens, d.ne_comma]

/-- A comma that no item follows is left unread, so that it is the one to blame. -/
theorem failsItems_comma (d : Denotes token item? value) (hclose : close ≠ .comma) (first : ι)
    (more : List ι) {rest : List Token} (hn : ∀ t ∈ rest.head?, item? t = none) :
    FailsItems item? close (commaTokens token first more ++ .symbol .comma :: rest)
      (.symbol .comma) :=
  .inr ⟨_, _, by simpa using hclose.symm, reads_items d first more (endsItems_comma.mpr hn), rfl⟩

theorem faultAt_comma (d : Denotes token item? value) (hclose : close ≠ .comma) (first : ι)
    (more : List ι) {rest : List Token} (hn : ∀ t ∈ rest.head?, item? t = none) :
    (items token item? close).FaultAt (commaTokens token first more ++ [.symbol .comma]) rest
      (.symbol .comma) where
  fails rest' hr := by
    have hn' : ∀ t ∈ rest'.head?, item? t = none := by rwa [hr]
    rw [List.append_assoc]
    exact failsItems_comma d hclose first more hn'
  viable := ⟨[token first, .symbol close], first, more ++ [first], by simp [commaTokens]⟩
  blames := .inr ⟨rfl, _, rfl, first, more, rfl⟩

theorem faultAt_items (d : Denotes token item? value) (first : ι) (more : List ι)
    {rest : List Token} (hne : rest.head? ≠ some (.symbol close))
    (hc : rest.head? ≠ some (.symbol .comma)) :
    (items token item? close).FaultAt (commaTokens token first more) rest (Token.nextKind rest) :=
  FaultAt.next (settled_commaTokens d first more)
    (fun rest' hr => .inr ⟨_, rest', by rwa [hr],
      reads_items d first more (endsItems_of_head? (by rwa [hr])), nextKind_congr hr⟩)
    ⟨[.symbol close], first, more, rfl⟩ rfl

/-- A list fails at its first token, after its last item, or after a comma that no item follows. -/
theorem fault_items (d : Denotes token item? value) (i : ι) (hclose : close ≠ .comma)
    (h : FailsItems item? close ts k) :
    ∃ before rest, before ++ rest = ts ∧ (items token item? close).FaultAt before rest k ∧
      (before = [] → ∀ t ∈ rest.head?, item? t = none) := by
  rcases h with h | ⟨as, rest, hne, hr, rfl⟩
  · obtain ⟨hn, hk⟩ := readItems_fails.mp h
    refine ⟨[], ts, rfl, FaultAt.next settled_nil (fun ts' hts => ?_) ⟨_, i, [], rfl⟩ hk,
      fun _ => hn⟩
    exact .inl (readItems_fails.mpr ⟨by rwa [List.nil_append, hts], (nextKind_congr hts).trans hk⟩)
  · obtain ⟨first, more, rfl, rfl⟩ := exists_items d hr
    by_cases hc : rest.head? = some (.symbol .comma)
    · obtain ⟨mid, rfl⟩ := List.head?_eq_some_iff.mp hc
      have hn := endsItems_comma.mp (endsItems_of_reads hr)
      exact ⟨_, mid, by simp, faultAt_comma d hclose first more hn, by simp⟩
    · exact ⟨_, rest, rfl, faultAt_items d first more hne hc, by simp [commaTokens]⟩

end Items

theorem settled_body (b : Body) : Settled b.tokens := by
  cases b with
  | filter e => simp [Body.tokens]
  | map e => simp [Body.tokens]
  | computed e => simp [Body.tokens]
  | star => simp [Body.tokens]
  | slice start stop => cases stop <;> simp [Body.tokens, Position.token]
  | items first more => exact settled_commaTokens denotes_item first more

theorem exists_body_of_opens {s : Symbol} (hs : s ∈ opensExpression) (c : Chain 0) :
    ∃ b : Body, b.tokens = .symbol s :: (c.tokens ++ [.symbol .parenClose]) := by
  simp only [opensExpression, List.mem_cons, List.not_mem_nil, or_false] at hs
  rcases hs with rfl | rfl | rfl
  · exact ⟨.filter c, rfl⟩
  · exact ⟨.map c, rfl⟩
  · exact ⟨.computed c, rfl⟩

/-- Whether a bound comes first is seen in one token. -/
theorem lookahead_bound (ts : List Token) :
    ∃ bound : Option Position, bound.toList.map Position.token ++ (readBound ts).2 = ts ∧
      ∀ rest', rest'.head? = (readBound ts).2.head? →
        (readBound (bound.toList.map Position.token ++ rest')).2 = rest' := by
  rcases bound_cases ts with ⟨p, mid, rfl⟩ | hn
  · exact ⟨some p, by simp, fun rest' _ => by simp⟩
  · rw [readBound_of_none hn]
    refine ⟨none, rfl, fun rest' hr => ?_⟩
    rw [Option.toList_none, List.map_nil, List.nil_append, readBound_of_none (by rwa [hr])]

/-- Whether a colon follows the first bound is seen in two tokens. -/
theorem startsItems_congr {before rest rest' : List Token} (hr : rest'.head? = rest.head?)
    (hb : before = [] → ∀ t ∈ rest.head?, Token.selector? t = none)
    (h : StartsItems (before ++ rest)) : StartsItems (before ++ rest') where
  symbol s hs := by
    rw [head?_append_congr hr]
    exact h.symbol s hs
  bound start mid he := by
    have colon : ∀ ts ts' : List Token, ts'.head? = ts.head? → ts' = .symbol .colon :: mid →
        ∃ mid, ts = .symbol .colon :: mid := by
      rintro ts _ hts rfl
      exact List.head?_eq_some_iff.mp hts.symm
    rcases bound_cases (before ++ rest') with ⟨p, after, hp⟩ | hn
    · cases before with
      | nil =>
        -- a position would have been read as an item
        have hn := hb rfl p.token (by rw [← hr]; exact congrArg List.head? hp)
        cases hn.symm.trans (denotes_item.item (.position p))
      | cons t before =>
        obtain ⟨rfl, -⟩ := List.cons.inj hp
        rw [List.cons_append, readBound_position] at he
        obtain ⟨mid', hm⟩ := colon _ _ (head?_append_congr hr) (Prod.mk.inj he).2
        exact h.bound _ mid' (by rw [List.cons_append, readBound_position, hm])
    · rw [readBound_of_none hn] at he
      obtain ⟨mid', hm⟩ := colon _ _ (head?_append_congr hr) (Prod.mk.inj he).2
      refine h.bound none mid' ?_
      rw [hm]
      rfl

theorem ne_comma_of_opens {s : Symbol} (hs : s ∈ opensExpression) : s ≠ .comma := by
  rintro rfl
  revert hs
  decide

/-- An expression in brackets fails, or something else follows the parenthesis that closes it. -/
theorem fault_opens {s : Symbol} (hs : s ∈ opensExpression) (hc : KnownCalls ts)
    (h : FailsUpTo .parenClose ts k ∨ ∃ rest, rest.head? ≠ some (.symbol .bracketClose) ∧
      (∃ e, Reads (readAt 0 ts) e (.symbol .parenClose :: rest)) ∧ Token.nextKind rest = k) :
    bracket.Fault (.symbol s :: ts) k := by
  rcases h with hf | ⟨rest, hne, ⟨e, he⟩, hk⟩
  · refine (fault_upTo (fault_chain (Nat.zero_le 5) hc) hf).after (x := [.symbol s])
      (by simp [ne_comma_of_opens hs])
      (fun ts _ hf => readBracket_fails.mpr (.inl ⟨s, hs, ts, rfl, .inl hf⟩)) ?_ (fun _ => nofun)
    rintro _ ⟨c, rfl⟩
    obtain ⟨b, hb⟩ := exists_body_of_opens hs c
    exact ⟨[.symbol .bracketClose], b, by simp [hb]⟩
  · obtain ⟨c, rfl, rfl⟩ := exists_chain (Nat.zero_le 5) he
    obtain ⟨b, hb⟩ := exists_body_of_opens hs c
    have hts : ∀ rest, .symbol s :: (c.tokens ++ .symbol .parenClose :: rest) = b.tokens ++ rest :=
      by simp [hb]
    rw [hts]
    refine Fault.next (settled_body b) (fun rest' hr => ?_) ⟨[.symbol .bracketClose], b, rfl⟩ hk
    rw [← hts]
    exact readBracket_fails.mpr (.inl ⟨s, hs, _, rfl, .inr ⟨rest', by rwa [hr],
      ⟨c.expr, reads_chain c _ (by simp)⟩, (nextKind_congr hr).trans hk⟩⟩)

theorem fault_slice {start : Option Int} {mid : List Token}
    (hb : readBound ts = (start, .symbol .colon :: mid))
    (hne : (readBound mid).2.head? ≠ some (.symbol .bracketClose))
    (hk : Token.nextKind (readBound mid).2 = k) : bracket.Fault ts k := by
  obtain ⟨first, hfirst, -⟩ := exists_bound ts
  obtain ⟨last, hlast, hl⟩ := lookahead_bound mid
  rw [hb] at hfirst
  have hts : (Body.slice first last).tokens ++ (readBound mid).2 = ts := by
    simpa [Body.tokens, hlast] using hfirst
  rw [← hts]
  refine Fault.next (settled_body _) (fun rest' hr => readBracket_fails.mpr (.inr (.inr (.inl
    ⟨first.map Position.index, last.toList.map Position.token ++ rest', ?_, ?_, ?_⟩))))
    ⟨[.symbol .bracketClose], _, rfl⟩ hk
  · have := readBound_append first (.symbol .colon :: (last.toList.map Position.token ++ rest'))
      (fun p mid => position_ne_symbol p _ mid _)
    simpa [Body.tokens] using this
  · rwa [hl rest' hr, hr]
  · rw [hl rest' hr, nextKind_congr hr, hk]

theorem fault_bracket (hc : KnownCalls ts) (h : Fails (readBracket ts) k) :
    bracket.Fault ts k := by
  rcases readBracket_fails.mp h with ⟨s, hs, mid, rfl, hf⟩ | ⟨mid, rfl, hne, hk⟩ |
    ⟨start, mid, hb, hne, hk⟩ | ⟨hi, hf⟩
  · exact fault_opens hs (hc.right (x := [_])) hf
  · exact Fault.next (x := [_]) (by simp) (fun rest' hr => readBracket_fails.mpr (.inr (.inl
      ⟨rest', rfl, by rwa [hr], (nextKind_congr hr).trans hk⟩))) ⟨_, .star, rfl⟩ hk
  · exact fault_slice hb hne hk
  · obtain ⟨before, rest, rfl, hf, hb⟩ := fault_items denotes_item (.name "") (by decide) hf
    refine ⟨before, rest, rfl, hf.after (x := []) (fun _ => blame_settled settled_nil)
      (fun rest' hr hf => ?_) ?_ (fun _ => id)⟩
    · have hi' : StartsItems (before ++ rest') := startsItems_congr hr hb hi
      exact readBracket_fails.mpr (.inr (.inr (.inr ⟨hi', hf⟩)))
    · rintro _ ⟨first, more, rfl⟩
      exact ⟨[], .items first more, by simp [Body.tokens]⟩

theorem fault_group (hc : KnownCalls ts) (h : FailsGroup ts k) : group.Fault ts k := by
  rcases h with ⟨mid, rfl, hf⟩ | ⟨mid, rfl, hf⟩
  · refine (fault_bracket (hc.right (x := [_])) hf).after (x := [.symbol .bracketOpen]) (by simp)
      (fun ts _ hf => .inl ⟨ts, rfl, hf⟩) ?_ ?_
    · rintro _ ⟨b, rfl⟩
      exact ⟨[], .bracket b, by simp [Group.tokens]⟩
    · rintro _ ⟨first, more, rfl⟩
      exact .bracket first more
  · obtain ⟨before, rest, rfl, hf, -⟩ := fault_items denotes_key "" (by decide)
      (readBrace_fails.mp hf)
    refine ⟨.symbol .braceOpen :: before, rest, rfl, hf.after (x := [_])
      (fun _ => blame_settled (by simp))
      (fun rest' _ hf => .inr ⟨before ++ rest', rfl, readBrace_fails.mpr hf⟩) ?_ ?_⟩
    · rintro _ ⟨first, more, rfl⟩
      exact ⟨[], .brace first more, by simp [Group.tokens]⟩
    · rintro _ ⟨first, more, rfl⟩
      exact .brace first more

/-! ## Segments -/

theorem settled_group (g : Group) : Settled g.tokens := by
  cases g <;> simp [Group.tokens]

theorem settled_segment (s : Segment) : Settled s.tokens := by
  cases s with
  | dot m => cases m <;> simp [Segment.tokens, Member.token]
  | descendMember m => cases m <;> simp [Segment.tokens, Member.token]
  | descendGroup g => exact (settled_group g).cons (by simp)
  | descendNothing => simp [Segment.tokens]
  | group g => exact settled_group g
  | coercion c => simp [Segment.tokens]

theorem ends_congr {s : Segment} {ts' : List Token} (h : ts'.head? = ts.head?) (hs : s.Ends ts) :
    s.Ends ts' := by
  intro he
  rw [h]
  exact hs he

theorem fault_segment (hc : KnownCalls ts) (h : Fails (readSegment? ts) k) :
    segment.Fault ts k := by
  rcases readSegment?_fails.mp h with ⟨mid, rfl, hf⟩ | ⟨mid, rfl, hf⟩ | hf |
    ⟨name, mid, rfl, hn, rfl⟩
  · obtain ⟨hm, hk⟩ := readMember_fails.mp hf
    refine Fault.next (x := [_]) (by simp) (fun rest' hr => readSegment?_fails.mpr (.inl
      ⟨rest', rfl, readMember_fails.mpr ⟨by rwa [hr], (nextKind_congr hr).trans hk⟩⟩)) ?_ hk
    exact ⟨_, .dot .star, rfl⟩
  · refine (fault_group (hc.right (x := [_])) hf).after (x := [.symbol .recurse]) (by simp)
      (fun ts _ hf => readSegment?_fails.mpr (.inr (.inl ⟨ts, rfl, hf⟩))) ?_ ?_
    · rintro _ ⟨g, rfl⟩
      exact ⟨[], .descendGroup g, by simp [Segment.tokens]⟩
    · exact fun keys hk => ⟨[.descendNothing], keys, hk, rfl⟩
  · refine (fault_group hc hf).first
      (fun ts _ hf => readSegment?_fails.mpr (.inr (.inr (.inl hf)))) ?_ ?_
    · rintro _ ⟨g, rfl⟩
      exact ⟨[], .group g, by simp [Segment.tokens]⟩
    · exact fun keys hk => ⟨[], keys, hk, rfl⟩
  · refine Fault.here (fun ts' hts => ?_) ⟨_, .descendNothing, rfl⟩ rfl
    obtain ⟨mid', rfl⟩ := List.head?_eq_some_iff.mp hts
    exact readSegment?_fails.mpr (.inr (.inr (.inr ⟨name, mid', rfl, hn, rfl⟩)))

theorem fault_segments {ts : List Token} (hc : KnownCalls ts) (h : FailsSegments ts k) :
    segments.Fault ts k := by
  rcases failsSegments_iff.mp h with hf | ⟨hn, hend, hk⟩ | ⟨head, mid, hs, hf⟩
  · refine (fault_segment hc hf).first (fun ts _ hf => failsSegments_iff.mpr (.inl hf)) ?_
      (fun _ => id)
    rintro _ ⟨s, rfl⟩
    exact ⟨[.finish], [s], by simp⟩
  · refine Fault.here (fun ts' hts => failsSegments_iff.mpr (.inr (.inl ⟨?_, by rwa [hts],
      (nextKind_congr hts).trans hk⟩))) ⟨_, [], rfl⟩ hk
    rw [readSegment?_eq_none] at hn ⊢
    rwa [hts]
  · have := hs.shorter
    obtain ⟨s, rfl, rfl, he⟩ := exists_segment hs
    refine (fault_segments hc.right hf).after (settled_segment s) (fun ts hts hf =>
      failsSegments_iff.mpr (.inr (.inr ⟨s.steps, ts, reads_segment s (ends_congr hts he), hf⟩)))
      ?_ ?_
    · rintro _ ⟨segments, rfl⟩
      exact ⟨[], s :: segments, by simp⟩
    · rintro _ ⟨segments, keys, hk, rfl⟩
      exact ⟨s :: segments, keys, hk, by simp⟩
termination_by ts.length

/-! ## Paths -/

theorem startsTarget_segment {s : Segment} (hs : ∀ g, s ≠ .group g) (rest : List Token) :
    ∀ t ∈ (s.tokens ++ rest).head?, startsTarget t = false := by
  cases s with
  | group g => exact absurd rfl (hs g)
  | _ => simp [Segment.tokens, startsTarget]

/-- A bare `..` before a group descends into it, so that any segments derive the tokens of allowed
ones. -/
theorem exists_bareAllowed (segments : List Segment) :
    ∃ allowed, BareAllowed allowed ∧
      allowed.flatMap Segment.tokens = segments.flatMap Segment.tokens := by
  induction segments with
  | nil => exact ⟨[], trivial, rfl⟩
  | cons s segments ih =>
    obtain ⟨allowed, hb, ht⟩ := ih
    by_cases hs : s.Ends (allowed.flatMap Segment.tokens ++ [.finish])
    · exact ⟨s :: allowed, ⟨hs, hb⟩, by simp [ht]⟩
    · obtain ⟨rfl, hn⟩ := Classical.not_imp.mp hs
      cases allowed with
      | nil => exact absurd (by simp [startsTarget]) hn
      | cons s' more =>
        by_cases hg : ∃ g, s' = .group g
        · obtain ⟨g, rfl⟩ := hg
          have hends : (Segment.descendGroup g).Ends
              (more.flatMap Segment.tokens ++ [.finish]) := by
            simp [Segment.Ends]
          exact ⟨.descendGroup g :: more, ⟨hends, hb.2⟩, by simp [Segment.tokens, ← ht]⟩
        · refine absurd ?_ hn
          rw [List.flatMap_cons, List.append_assoc]
          exact startsTarget_segment (fun g he => hg ⟨g, he⟩) _

theorem exists_path (segments : List Segment) :
    ∃ p : Path, p.tokens = .symbol .root :: segments.flatMap Segment.tokens ++ [.finish] := by
  obtain ⟨allowed, hb, ht⟩ := exists_bareAllowed segments
  exact ⟨⟨allowed, hb⟩, by simp [Path.tokens, ht]⟩

theorem fault_path (hc : KnownCalls ts) (h : Fails (ofTokens ts) k) : path.Fault ts k := by
  rcases ofTokens_fails.mp h with ⟨hr, hk⟩ | ⟨mid, rfl, hf⟩
  · refine Fault.here (fun ts' hts => ofTokens_fails.mpr (.inl
      ⟨by rwa [hts], (nextKind_congr hts).trans hk⟩)) ⟨_, ⟨[], trivial⟩, rfl⟩ hk
  · refine (fault_segments (hc.right (x := [_])) hf).after (x := [.symbol .root]) (by simp)
      (fun ts _ hf => ofTokens_fails.mpr (.inr ⟨ts, rfl, hf⟩)) ?_ ?_
    · rintro _ ⟨segments, rfl⟩
      obtain ⟨p, hp⟩ := exists_path segments
      exact ⟨[], p, by simp [hp]⟩
    · exact fun ts hk => ⟨ts, hk, rfl⟩

end PathQuery.Grammar
