import Mathlib.Data.Set.List
import PathQuery.Proofs.Grammar.Path
import PathQuery.Proofs.Printing.Precedence
import PathQuery.Proofs.Printing.Printer
import PathQuery.Query

/-! The steps that come from tokens.
A part of the grammar gives exactly the steps that are well-formed for it, so that parsing some
tokens gives exactly the steps that are well-formed as a whole. Any expression and any text may occur
in them; a position has to come from a double. -/
namespace PathQuery

/-- Positions are whole doubles, kept within 64 bits; the other leaves are arbitrary. -/
def Leaves.castable : Leaves where
  text _ := True
  name _ := True
  number _ := True
  position i := ∃ d : Double, d.isIntegral = true ∧ d.toInt64 = i

/-! ## Expressions and selectors -/

mutual

theorem Expr.meets_castable : ∀ e : Expr, e.Meets .castable
  | .literal l => by cases l <;> trivial
  | .current => trivial
  | .root => trivial
  | .property target _ => ⟨Expr.meets_castable target, trivial⟩
  | .element target index => ⟨Expr.meets_castable target, Expr.meets_castable index⟩
  | .call target _ args => ⟨Expr.meets_castable target, Expr.allMeet_castable args⟩
  | .coerce _ arg => Expr.meets_castable arg
  | .unary _ arg => Expr.meets_castable arg
  | .binary _ lhs rhs => ⟨Expr.meets_castable lhs, Expr.meets_castable rhs⟩

theorem Expr.allMeet_castable : ∀ es : List Expr, Expr.AllMeet .castable es
  | [] => trivial
  | e :: es => ⟨Expr.meets_castable e, Expr.allMeet_castable es⟩

end

theorem exists_map_iff {α β : Type} {f : α → β} {bs : List β} :
    (∃ as : List α, as.map f = bs) ↔ ∀ b ∈ bs, ∃ a, f a = b := by
  have hrange := Set.range_list_map f
  exact Set.ext_iff.mp hrange bs

namespace Grammar

theorem exists_item_iff {s : Selector} :
    (∃ item : Item, item.selector = s) ↔ s.Meets .castable := by
  constructor
  · rintro ⟨item, rfl⟩
    cases item with
    | position p => exact ⟨.finite p.value, p.isIntegral, p.toInt64_eq_index⟩
    | name s => trivial
  · intro h
    cases s with
    | index i =>
      obtain ⟨d, hd, rfl⟩ := h
      obtain ⟨p, rfl⟩ := Double.exists_position hd
      exact ⟨.position p, congrArg Selector.index p.toInt64_eq_index.symm⟩
    | name s => exact ⟨.name s, rfl⟩

theorem exists_items_iff {selectors : List Selector} :
    (∃ items : List Item, items.map Item.selector = selectors) ↔
      ∀ s ∈ selectors, s.Meets .castable := by
  simp only [exists_map_iff, exists_item_iff]

theorem exists_bound_iff {i : Option Int} :
    (∃ p : Option Position, p.map Position.index = i) ↔
      ∀ j ∈ i, Leaves.castable.position j := by
  constructor
  · rintro ⟨p, rfl⟩ j hj
    obtain ⟨q, _, rfl⟩ := Option.map_eq_some_iff.mp hj
    exact ⟨.finite q.value, q.isIntegral, q.toInt64_eq_index⟩
  · intro h
    cases i with
    | none => exact ⟨none, rfl⟩
    | some i =>
      obtain ⟨d, hd, rfl⟩ := h i rfl
      obtain ⟨p, rfl⟩ := Double.exists_position hd
      exact ⟨some p, congrArg some p.toInt64_eq_index.symm⟩

end Grammar

/-! ## What can stand after `..` -/

/-- A step that is no root, no recursion and no coercion, with something in its lists and with
positions that are doubles. -/
structure Step.Proper (s : Step) : Prop where
  target : s.isTarget = true
  filled : s.Filled
  castable : s.Meets .castable

namespace Grammar

theorem Member.proper (m : Member) : m.step.Proper := by
  cases m <;> exact ⟨rfl, trivial, trivial⟩

theorem Body.proper (b : Body) : b.step.Proper := by
  cases b with
  | filter e => exact ⟨rfl, trivial, Expr.meets_castable _⟩
  | map e => exact ⟨rfl, trivial, Expr.meets_castable _⟩
  | computed e => exact ⟨rfl, trivial, Expr.meets_castable _⟩
  | star => exact ⟨rfl, trivial, trivial⟩
  | slice start stop =>
    exact ⟨rfl, trivial, exists_bound_iff.mp ⟨start, rfl⟩, exists_bound_iff.mp ⟨stop, rfl⟩⟩
  | items first more =>
    have hmeets := exists_items_iff.mp ⟨first :: more, rfl⟩
    rw [Body.step]
    rcases first.listStep_cases more with ⟨p, _, hs⟩ | ⟨keys, hk, hs⟩ | ⟨hl, ⟨p, hp⟩, hs⟩
    · rw [hs]
      exact ⟨rfl, trivial, .finite p.value, p.isIntegral, p.toInt64_eq_index⟩
    · have hkeys : keys ≠ [] := by
        rintro rfl
        cases hk
      rw [hs]
      exact ⟨rfl, hkeys, fun _ _ => trivial⟩
    · rw [hs]
      exact ⟨rfl, ⟨by simpa using hl, p.index, List.mem_map_of_mem hp⟩, hmeets⟩

theorem Group.proper (g : Group) : g.step.Proper := by
  cases g with
  | bracket b => exact b.proper
  | brace first more => exact ⟨rfl, List.cons_ne_nil first more, fun _ _ => trivial⟩

theorem exists_body_of_items {selectors : List Selector} (hne : selectors ≠ [])
    (h : ∀ s ∈ selectors, s.Meets .castable) :
    ∃ b : Body, b.step = Step.ofSelectors selectors := by
  obtain ⟨items, rfl⟩ := exists_items_iff.mpr h
  cases items with
  | nil => exact absurd rfl hne
  | cons first more => exact ⟨.items first more, first.listStep_eq_ofSelectors more⟩

/-- A member or a group gives every such step. -/
theorem exists_of_proper {s : Step} (h : s.Proper) :
    (∃ m : Member, m.step = s) ∨ ∃ g : Group, g.step = s := by
  obtain ⟨htarget, hfilled, hmeets⟩ := h
  cases s with
  | root => cases htarget
  | recurse => cases htarget
  | coerce c => cases htarget
  | member name => exact .inl ⟨.name name, rfl⟩
  | wildcard => exact .inl ⟨.star, rfl⟩
  | index i =>
    have hone : ∀ s ∈ [Selector.index i], s.Meets .castable :=
      List.forall_mem_singleton.mpr hmeets
    obtain ⟨b, hb⟩ := exists_body_of_items (by simp) hone
    exact .inr ⟨.bracket b, hb⟩
  | slice start stop =>
    obtain ⟨p, rfl⟩ := exists_bound_iff.mpr hmeets.1
    obtain ⟨q, rfl⟩ := exists_bound_iff.mpr hmeets.2
    exact .inr ⟨.bracket (.slice p q), rfl⟩
  | union selectors =>
    obtain ⟨hl, i, hi⟩ := hfilled
    obtain ⟨b, hb⟩ := exists_body_of_items (List.ne_nil_of_mem hi) hmeets
    exact .inr ⟨.bracket b, hb.trans (Step.ofSelectors_union hl hi)⟩
  | filter e =>
    obtain ⟨c, _, rfl⟩ := (derivable e).exists_whole
    exact .inr ⟨.bracket (.filter c), rfl⟩
  | map e =>
    obtain ⟨c, _, rfl⟩ := (derivable e).exists_whole
    exact .inr ⟨.bracket (.map c), rfl⟩
  | computed e =>
    obtain ⟨c, _, rfl⟩ := (derivable e).exists_whole
    exact .inr ⟨.bracket (.computed c), rfl⟩
  | tuple keys =>
    have hkeys : keys ≠ [] := hfilled
    have hne : keys.map Selector.name ≠ [] := by simpa using hkeys
    have hnames : ∀ s ∈ keys.map Selector.name, s.Meets .castable := by
      simp [Selector.Meets, Leaves.castable]
    obtain ⟨b, hb⟩ := exists_body_of_items hne hnames
    exact .inr ⟨.bracket b, hb.trans Step.ofSelectors_tuple⟩
  | record keys =>
    obtain ⟨first, more, rfl⟩ := List.exists_cons_of_ne_nil hfilled
    exact .inr ⟨.brace first more, rfl⟩

end Grammar

/-! ## What can stand after `$` -/

namespace Step

theorem Proper.following {s : Step} {more : List Step} (hs : s.Proper) (h : Following more) :
    Following (s :: more) := by
  refine following_cons.mpr ⟨?_, ?_, hs.filled, h⟩
  · rintro rfl
    cases hs.target
  · rintro rfl
    cases hs.target

end Step

namespace Grammar

/-- Segments give steps that can stand after `$`. -/
theorem following_segments (segments : List Segment) :
    Step.Following (segments.flatMap Segment.steps) ∧
      ∀ s ∈ segments.flatMap Segment.steps, s.Meets .castable := by
  induction segments with
  | nil => exact ⟨Step.following_nil, by simp⟩
  | cons segment segments ih =>
    obtain ⟨hf, hm⟩ := ih
    have hproper : ∀ s : Step, s.Proper →
        Step.Following (s :: segments.flatMap Segment.steps) ∧
          ∀ t ∈ s :: segments.flatMap Segment.steps, t.Meets .castable :=
      fun s hs => ⟨hs.following hf, List.forall_mem_cons.mpr ⟨hs.castable, hm⟩⟩
    have hrecurse : ∀ s : Step, s.Proper →
        Step.Following (.recurse :: s :: segments.flatMap Segment.steps) ∧
          ∀ t ∈ .recurse :: s :: segments.flatMap Segment.steps, t.Meets .castable :=
      fun s hs => ⟨Step.following_recurse.mpr ⟨s, _, rfl, hs.target, hs.filled, hf⟩,
        List.forall_mem_cons.mpr ⟨trivial, (hproper s hs).2⟩⟩
    rw [List.flatMap_cons]
    cases segment with
    | dot m => exact hproper _ m.proper
    | group g => exact hproper _ g.proper
    | descendMember m => exact hrecurse _ m.proper
    | descendGroup g => exact hrecurse _ g.proper
    | descendNothing => exact ⟨hf, hm⟩
    | coercion c =>
      have hc : Step.Following (.coerce c :: segments.flatMap Segment.steps) :=
        Step.following_cons.mpr ⟨by simp, by simp, trivial, hf⟩
      exact ⟨hc, List.forall_mem_cons.mpr ⟨trivial, hm⟩⟩

/-- All steps that can stand after `$` come from segments. -/
theorem exists_segments_of_following (more : List Step) (hf : Step.Following more)
    (h : ∀ s ∈ more, s.Meets .castable) :
    ∃ segments : List Segment, (∀ s ∈ segments, s ≠ .descendNothing) ∧
      segments.flatMap Segment.steps = more := by
  match more with
  | [] => exact ⟨[], by simp, rfl⟩
  | s :: more =>
    obtain ⟨hs, hm⟩ := List.forall_mem_cons.mp h
    obtain ⟨hroot, _, hfilled, hmore⟩ := Step.following_cons.mp hf
    cases ht : s.isTarget with
    | true =>
      obtain ⟨segments, hn, rfl⟩ := exists_segments_of_following more hmore hm
      rcases exists_of_proper ⟨ht, hfilled, hs⟩ with ⟨m, rfl⟩ | ⟨g, rfl⟩
      · exact ⟨.dot m :: segments, by simpa using hn, rfl⟩
      · exact ⟨.group g :: segments, by simpa using hn, rfl⟩
    | false =>
      cases s with
      | root => exact absurd rfl hroot
      | coerce c =>
        obtain ⟨segments, hn, rfl⟩ := exists_segments_of_following more hmore hm
        exact ⟨.coercion c :: segments, by simpa using hn, rfl⟩
      | recurse =>
        -- the step behind belongs to the same segment
        obtain ⟨t, after, rfl, htarget, hfilled, hafter⟩ := Step.following_recurse.mp hf
        obtain ⟨ht, hm⟩ := List.forall_mem_cons.mp hm
        obtain ⟨segments, hn, rfl⟩ := exists_segments_of_following after hafter hm
        rcases exists_of_proper ⟨htarget, hfilled, ht⟩ with ⟨m, rfl⟩ | ⟨g, rfl⟩
        · exact ⟨.descendMember m :: segments, by simpa using hn, rfl⟩
        · exact ⟨.descendGroup g :: segments, by simpa using hn, rfl⟩
      | _ => cases ht
termination_by more.length

end Grammar

/-! ## Whole paths -/

/-- Some tokens are parsed as these steps exactly if the steps are well-formed and their positions
are whole doubles kept within 64 bits. -/
theorem Query.exists_parse_iff {ss : List Step} :
    (∃ ts, Query.parse ts = .ok ss) ↔
      Step.WellFormed ss ∧ ∀ s ∈ ss, s.Meets .castable := by
  have hparse : ∀ ts, Query.parse ts = .ok ss ↔ Step.ofTokens ts = .ok ss := by
    intro ts
    unfold Query.parse
    cases Step.ofTokens ts <;> simp [Except.mapError]
  simp only [hparse, Grammar.ofTokens_iff_derivation]
  constructor
  · rintro ⟨_, p, _, _, rfl⟩
    obtain ⟨hf, hm⟩ := Grammar.following_segments p.segments
    exact ⟨⟨_, rfl, hf⟩, List.forall_mem_cons.mpr ⟨trivial, hm⟩⟩
  · rintro ⟨⟨more, rfl, hf⟩, h⟩
    obtain ⟨_, hm⟩ := List.forall_mem_cons.mp h
    obtain ⟨segments, hn, rfl⟩ := Grammar.exists_segments_of_following more hf hm
    exact ⟨_, ⟨segments, Grammar.bareAllowed_of_forall hn⟩, [], rfl, rfl⟩

end PathQuery
