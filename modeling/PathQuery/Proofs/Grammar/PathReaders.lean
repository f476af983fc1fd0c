import PathQuery.Proofs.Grammar.Expression
import PathQuery.Step.Parser

/-! What the readers of bounds, lists and segments accept. -/
namespace PathQuery
open Grammar

/-! ## Lists in brackets -/

namespace Step

theorem ofSelectors_tuple {keys : List String} : ofSelectors (keys.map .name) = .tuple keys := by
  unfold ofSelectors
  split
  next h => cases keys <;> simp at h
  next =>
    rw [List.filterMap_map]
    change (if (keys.filterMap some).length = (keys.map Selector.name).length
      then .tuple (keys.filterMap some) else .union (keys.map .name)) = tuple keys
    simp

theorem ofSelectors_union {selectors : List Selector} (hl : 2 ≤ selectors.length) {i : Int}
    (hi : .index i ∈ selectors) : ofSelectors selectors = .union selectors := by
  unfold ofSelectors
  split
  next => simp at hl
  next =>
    refine if_neg (Nat.ne_of_lt ?_)
    exact List.length_filterMap_lt_length_iff_exists.mpr ⟨_, hi, rfl⟩

end Step

namespace Grammar.Item

theorem eq_map_of_names? {items : List Item} {keys : List String} (h : names? items = some keys) :
    items = keys.map .name := by
  fun_induction names? items generalizing keys with
  | case1 =>
    cases h
    rfl
  | case2 s items ih =>
    obtain ⟨rest, hr, rfl⟩ := Option.map_eq_some_iff.mp h
    rw [ih hr]
    rfl
  | case3 => cases h

theorem exists_position_of_names? {items : List Item} (h : names? items = none) :
    ∃ p, .position p ∈ items := by
  fun_induction names? items with
  | case1 => cases h
  | case2 s items ih =>
    obtain ⟨p, hp⟩ := ih (Option.map_eq_none_iff.mp h)
    exact ⟨p, List.mem_cons_of_mem _ hp⟩
  | case3 p items => exact ⟨p, List.mem_cons_self⟩

/-- A list is one position, or names alone, or a position among others. -/
theorem listStep_cases (first : Item) (more : List Item) :
    (∃ p, first :: more = [.position p] ∧ first.listStep more = .index p.index) ∨
    (∃ keys, first :: more = keys.map .name ∧ first.listStep more = .tuple keys) ∨
    (2 ≤ (first :: more).length ∧ (∃ p, .position p ∈ first :: more) ∧
      first.listStep more = .union ((first :: more).map selector)) := by
  fun_cases listStep first more with
  | case1 p => exact .inl ⟨p, rfl, rfl⟩
  | case2 first more hn keys hk => exact .inr (.inl ⟨keys, eq_map_of_names? hk, rfl⟩)
  | case3 first more hn hk =>
    obtain ⟨p, hp⟩ := exists_position_of_names? hk
    have hmore : more ≠ [] := by
      rintro rfl
      exact hn p (List.mem_singleton.mp hp).symm rfl
    exact .inr (.inr ⟨Nat.succ_le_succ (List.length_pos_iff.mpr hmore), ⟨p, hp⟩, rfl⟩)

/-- The readers translate a list as the grammar does. -/
theorem listStep_eq_ofSelectors (first : Item) (more : List Item) :
    first.listStep more = .ofSelectors ((first :: more).map selector) := by
  rcases first.listStep_cases more with ⟨p, hp, hs⟩ | ⟨keys, hk, hs⟩ | ⟨hl, ⟨p, hp⟩, hs⟩
  · rw [hs, hp]
    rfl
  · rw [hs, hk, List.map_map]
    exact Step.ofSelectors_tuple.symm
  · have hlength : 2 ≤ ((first :: more).map selector).length := by rwa [List.length_map]
    rw [hs]
    exact (Step.ofSelectors_union hlength (List.mem_map_of_mem hp)).symm

end Grammar.Item

/-! ## Positions, names and segments -/

namespace Grammar.Position

theorem isIntegral (p : Position) : (Double.finite p.value).isIntegral = true :=
  beq_iff_eq.mpr (Nat.mod_eq_zero_of_dvd p.whole)

theorem toInt64_eq_index (p : Position) : (Double.finite p.value).toInt64 = p.index := by
  have hwhole : (Double.one : Int) ∣ (p.value.units : Int) := Int.natCast_dvd_natCast.mpr p.whole
  have hvalue : p.value.toInt = p.value.signed / Double.one := by
    rw [FiniteDouble.toInt, FiniteDouble.signed, FiniteDouble.whole, Int.natCast_ediv]
    split
    · exact (Int.neg_ediv_of_dvd hwhole).symm
    · rfl
  rw [Double.toInt64, hvalue]
  rfl

end Grammar.Position

theorem Double.exists_position {d : Double} (h : d.isIntegral = true) :
    ∃ p : Position, .finite p.value = d := by
  cases d with
  | finite x => exact ⟨⟨x, Nat.dvd_of_mod_eq_zero (beq_iff_eq.mp h)⟩, rfl⟩
  | _ => cases h

theorem Token.index?_eq_some {t : Token} {i : Int} :
    t.index? = some i ↔ ∃ p : Position, p.token = t ∧ p.index = i := by
  constructor
  · intro h
    unfold index? at h
    split at h
    next d =>
      split at h
      next hd =>
        cases h
        obtain ⟨p, rfl⟩ := Double.exists_position hd
        exact ⟨p, rfl, p.toInt64_eq_index.symm⟩
      · cases h
    · cases h
  · rintro ⟨p, rfl, rfl⟩
    simp [index?, Position.token, p.isIntegral, p.toInt64_eq_index]

theorem Token.key?_eq_some {t : Token} {s : String} : t.key? = some s ↔ .string s = t := by
  cases t <;> simp [key?, eq_comm]

theorem Token.selector?_eq_some {t : Token} {s : Selector} :
    t.selector? = some s ↔ ∃ i : Item, i.token = t ∧ i.selector = s := by
  constructor
  · intro h
    cases t with
    | string name =>
      cases h
      exact ⟨.name name, rfl, rfl⟩
    | number d =>
      obtain ⟨i, hi, rfl⟩ := Option.map_eq_some_iff.mp h
      obtain ⟨p, hp, rfl⟩ := index?_eq_some.mp hi
      exact ⟨.position p, hp, rfl⟩
    | _ => cases h
  · rintro ⟨i, rfl, rfl⟩
    cases i with
    | name => rfl
    | position p =>
      have hp : p.token.index? = some p.index := index?_eq_some.mpr ⟨p, rfl, rfl⟩
      simpa [selector?, Item.token, Item.selector, Position.token] using hp

namespace Step

variable {ts rest : List Token} {s : Step}

@[simp] theorem readBound_position (p : Position) (ts : List Token) :
    readBound (p.token :: ts) = (some p.index, ts) := by
  have hp : p.token.index? = some p.index := Token.index?_eq_some.mpr ⟨p, rfl, rfl⟩
  simp [readBound, hp]

theorem readBound_of_none (h : ∀ t ∈ ts.head?, Token.index? t = none) :
    readBound ts = (none, ts) := by
  cases ts with
  | nil => rfl
  | cons t ts => simp [readBound, h t rfl]

theorem bound_cases (ts : List Token) :
    (∃ (p : Position) (mid : List Token), ts = p.token :: mid) ∨
      ∀ t ∈ ts.head?, Token.index? t = none := by
  cases ts with
  | nil => simp
  | cons t mid =>
    cases ht : t.index? with
    | none => simp [ht]
    | some i =>
      obtain ⟨p, rfl, -⟩ := Token.index?_eq_some.mp ht
      exact .inl ⟨p, mid, rfl⟩

/-- A bound is read if one comes next. -/
theorem readBound_append (bound : Option Position) (ts : List Token)
    (h : ∀ (p : Position) (mid : List Token), p.token :: mid ≠ ts) :
    readBound (bound.toList.map Position.token ++ ts) = (bound.map Position.index, ts) := by
  cases bound with
  | none =>
    rcases bound_cases ts with ⟨p, mid, rfl⟩ | hn
    · exact absurd rfl (h p mid)
    · exact readBound_of_none hn
  | some p => exact readBound_position p ts

theorem exists_bound (ts : List Token) :
    ∃ bound : Option Position, bound.toList.map Position.token ++ (readBound ts).2 = ts ∧
      bound.map Position.index = (readBound ts).1 := by
  rcases bound_cases ts with ⟨p, mid, rfl⟩ | hn
  · exact ⟨some p, by simp, by simp⟩
  · exact ⟨none, by simp [readBound_of_none hn], by simp [readBound_of_none hn]⟩

/-- A slice is read where a colon follows the first bound, if any. -/
theorem readSlice?_cases (ts : List Token) :
    (∃ start mid r, readBound ts = (start, .symbol .colon :: mid) ∧ readSlice? ts = some r ∧
      r.value = .slice start (readBound mid).1 ∧ r.rest = (readBound mid).2) ∨
      (readSlice? ts = none ∧ ∀ start mid, readBound ts ≠ (start, .symbol .colon :: mid)) := by
  unfold readSlice?
  split
  next hs => exact .inl ⟨_, _, _, hs, rfl, rfl, rfl⟩
  next hn => exact .inr ⟨rfl, hn⟩

theorem readEnclosed_iff {f : Expr → Step} :
    Reads (readEnclosed f ts) s rest ↔
      ∃ e, f e = s ∧ Reads (Expr.readAt 0 ts) e (.symbol .parenClose :: rest) := by
  simp [readEnclosed, Expr.read]

section Items

variable {ι α : Type} {item? : Token → Option α} {token : ι → Token} {value : ι → α}

theorem readItems_iff {as : List α} :
    Reads (readItems item? ts) as rest ↔
      ∃ t mid a, ts = t :: mid ∧ item? t = some a ∧ a :: (readMoreItems item? mid).1 = as ∧
        (readMoreItems item? mid).2 = rest := by
  unfold readItems
  split
  · simp
  next t mid =>
    split
    next a ha => simp [ha]
    next hn => simp [hn]

/-- The tokens that are read as items, with what they are read as. -/
structure Denotes (token : ι → Token) (item? : Token → Option α) (value : ι → α) : Prop where
  item : ∀ i, item? (token i) = some (value i)
  exists_item : ∀ t a, item? t = some a → ∃ i, token i = t ∧ value i = a
  ne_comma : ∀ i, token i ≠ .symbol .comma

/-- What follows a list is not a comma with a further item. -/
def EndsItems (item? : Token → Option α) (rest : List Token) : Prop :=
  ∀ t mid, rest = .symbol .comma :: t :: mid → item? t = none

theorem endsItems_comma :
    EndsItems item? (.symbol .comma :: rest) ↔ ∀ t ∈ rest.head?, item? t = none := by
  cases rest <;> simp [EndsItems]

theorem endsItems_of_head? (h : rest.head? ≠ some (.symbol .comma)) : EndsItems item? rest := by
  rintro t mid rfl
  exact absurd rfl h

@[simp] theorem endsItems_symbol {s : Symbol} (hs : s ≠ .comma) :
    EndsItems item? (.symbol s :: rest) :=
  endsItems_of_head? (by simpa using hs)

theorem endsItems_readMoreItems (ts : List Token) : EndsItems item? (readMoreItems item? ts).2 := by
  fun_induction readMoreItems item? ts with
  | case1 t mid a ha ih => exact ih
  | case2 t mid ht =>
    rintro _ _ ⟨⟩
    exact ht
  | case3 ts hts => exact fun t mid he => absurd he (hts t mid)

/-- Items are read as far as the list goes. -/
theorem readMoreItems_append (d : Denotes token item? value) (more : List ι)
    (hr : EndsItems item? rest) :
    readMoreItems item? (more.flatMap (fun i => [.symbol .comma, token i]) ++ rest) =
      (more.map value, rest) := by
  induction more with
  | nil =>
    simp only [List.flatMap_nil, List.nil_append, List.map_nil]
    unfold readMoreItems
    split
    next t mid => rw [hr t mid rfl]
    next => rfl
  | cons i more ih =>
    simp only [List.flatMap_cons, List.cons_append, List.nil_append]
    rw [readMoreItems, d.item, ih]
    rfl

theorem exists_moreItems (d : Denotes token item? value) (ts : List Token) :
    ∃ more : List ι, more.flatMap (fun i => [.symbol .comma, token i]) ++
      (readMoreItems item? ts).2 = ts ∧ more.map value = (readMoreItems item? ts).1 := by
  fun_induction readMoreItems item? ts with
  | case1 t mid a ha ih =>
    obtain ⟨i, rfl, rfl⟩ := d.exists_item t a ha
    obtain ⟨more, ht, hv⟩ := ih
    exact ⟨i :: more, by simp [ht], by simp [hv]⟩
  | case2 => exact ⟨[], rfl, rfl⟩
  | case3 => exact ⟨[], rfl, rfl⟩

theorem reads_items (d : Denotes token item? value) (first : ι) (more : List ι)
    (hr : EndsItems item? rest) :
    Reads (readItems item? (commaTokens token first more ++ rest)) ((first :: more).map value)
      rest := by
  rw [commaTokens, List.cons_append, readItems_iff]
  refine ⟨token first, _, value first, rfl, d.item first, ?_, ?_⟩
  · rw [readMoreItems_append d more hr]
    rfl
  · rw [readMoreItems_append d more hr]

theorem exists_items (d : Denotes token item? value)
    {as : List α} (h : Reads (readItems item? ts) as rest) :
    ∃ first more, commaTokens token first more ++ rest = ts ∧ (first :: more).map value = as := by
  obtain ⟨t, mid, a, rfl, ha, rfl, rfl⟩ := readItems_iff.mp h
  obtain ⟨first, rfl, rfl⟩ := d.exists_item t a ha
  obtain ⟨more, ht, hv⟩ := exists_moreItems d mid
  refine ⟨first, more, ?_, by simp [hv]⟩
  conv_rhs => rw [← ht]
  rfl

theorem endsItems_of_reads {as : List α} (h : Reads (readItems item? ts) as rest) :
    EndsItems item? rest := by
  obtain ⟨_, mid, _, _, _, _, rfl⟩ := readItems_iff.mp h
  exact endsItems_readMoreItems mid

end Items

theorem denotes_item : Denotes Item.token Token.selector? Item.selector where
  item i := Token.selector?_eq_some.mpr ⟨i, rfl, rfl⟩
  exists_item _ _ ht := Token.selector?_eq_some.mp ht
  ne_comma i := by cases i <;> simp [Item.token, Position.token]

theorem denotes_key : Denotes Token.string Token.key? id where
  item _ := rfl
  exists_item _ a ht := ⟨a, Token.key?_eq_some.mp ht, rfl⟩
  ne_comma _ := by simp

theorem readBracketBody_iff :
    Reads (readBracketBody ts) s rest ↔
      (∃ mid e, ts = .symbol .filterOpen :: mid ∧ .filter e = s ∧
        Reads (Expr.readAt 0 mid) e (.symbol .parenClose :: rest)) ∨
      (∃ mid e, ts = .symbol .mapOpen :: mid ∧ .map e = s ∧
        Reads (Expr.readAt 0 mid) e (.symbol .parenClose :: rest)) ∨
      (∃ mid e, ts = .symbol .parenOpen :: mid ∧ .computed e = s ∧
        Reads (Expr.readAt 0 mid) e (.symbol .parenClose :: rest)) ∨
      (ts = .symbol .star :: rest ∧ .wildcard = s) ∨
      (∃ start mid, readBound ts = (start, .symbol .colon :: mid) ∧
        .slice start (readBound mid).1 = s ∧ (readBound mid).2 = rest) ∨
      ((∀ start mid, readBound ts ≠ (start, .symbol .colon :: mid)) ∧
        ∃ selectors, .ofSelectors selectors = s ∧
          Reads (readItems Token.selector? ts) selectors rest) := by
  have hb : ∀ s mid, readBound (.symbol s :: mid) = (none, .symbol s :: mid) := fun _ _ => rfl
  have hi : ∀ s mid selectors rest,
      ¬ Reads (readItems Token.selector? (.symbol s :: mid)) selectors rest :=
    fun _ _ _ _ => by simp [readItems_iff, Token.selector?, Token.index?]
  rw [readBracketBody.eq_def]
  split
  next => simp [readEnclosed_iff, hb, hi]
  next => simp [readEnclosed_iff, hb, hi]
  next => simp [readEnclosed_iff, hb, hi]
  next => simp [hb, hi, and_comm]
  next h1 h2 h3 h4 =>
    have h1 : ∀ mid, ts ≠ .symbol .filterOpen :: mid := h1
    have h2 : ∀ mid, ts ≠ .symbol .mapOpen :: mid := h2
    have h3 : ∀ mid, ts ≠ .symbol .parenOpen :: mid := h3
    have h4 : ∀ mid, ts ≠ .symbol .star :: mid := h4
    rcases readSlice?_cases ts with ⟨start, mid, r, hb, hs, hv, hr⟩ | ⟨hs, hb⟩
    · simp [hs, hb, h1, h2, h3, h4, hv, hr]
    · simp [hs, hb, h1, h2, h3, h4]

theorem readBracket_iff :
    Reads (readBracket ts) s rest ↔
      Reads (readBracketBody ts) s (.symbol .bracketClose :: rest) := by
  simp [readBracket]

theorem readBrace_iff :
    Reads (readBrace ts) s rest ↔
      ∃ keys, .record keys = s ∧
        Reads (readItems Token.key? ts) keys (.symbol .braceClose :: rest) := by
  simp [readBrace]

theorem readMember_iff :
    Reads (readMember ts) s rest ↔ ∃ m : Member, ts = m.token :: rest ∧ m.step = s := by
  constructor
  · intro h
    unfold readMember at h
    split at h
    next name mid =>
      obtain ⟨rfl, rfl⟩ := Reads.ok_iff.mp h
      exact ⟨.name name, rfl, rfl⟩
    next name mid =>
      obtain ⟨rfl, rfl⟩ := Reads.ok_iff.mp h
      exact ⟨.quoted name, rfl, rfl⟩
    next mid =>
      obtain ⟨rfl, rfl⟩ := Reads.ok_iff.mp h
      exact ⟨.star, rfl, rfl⟩
    next => exact absurd h Reads.not_unexpected
  · rintro ⟨m, rfl, rfl⟩
    cases m <;> exact Reads.ok_iff.mpr ⟨rfl, rfl⟩

theorem readRecursion_iff {steps : List Step} :
    Reads (readRecursion ts) steps rest ↔
      (∃ m : Member, ts = m.token :: rest ∧ [.recurse, m.step] = steps) ∨
      (∃ mid step, ts = .symbol .bracketOpen :: mid ∧ [.recurse, step] = steps ∧
        Reads (readBracket mid) step rest) ∨
      (∃ mid step, ts = .symbol .braceOpen :: mid ∧ [.recurse, step] = steps ∧
        Reads (readBrace mid) step rest) ∨
      ((∀ t ∈ ts.head?, startsTarget t = false) ∧ [] = steps ∧ ts = rest) := by
  constructor
  · intro h
    rw [readRecursion.eq_def] at h
    split at h
    next name mid =>
      obtain ⟨rfl, rfl⟩ := Reads.ok_iff.mp h
      exact .inl ⟨.name name, rfl, rfl⟩
    next name mid =>
      obtain ⟨rfl, rfl⟩ := Reads.ok_iff.mp h
      exact .inl ⟨.quoted name, rfl, rfl⟩
    next mid =>
      obtain ⟨rfl, rfl⟩ := Reads.ok_iff.mp h
      exact .inl ⟨.star, rfl, rfl⟩
    next mid => exact .inr (.inl ⟨mid, by simpa using h⟩)
    next mid => exact .inr (.inr (.inl ⟨mid, by simpa using h⟩))
    next h1 h2 h3 h4 h5 =>
      obtain ⟨rfl, rfl⟩ := Reads.ok_iff.mp h
      refine .inr (.inr (.inr ⟨fun t ht => ?_, rfl, rfl⟩))
      obtain ⟨mid, rfl⟩ := List.head?_eq_some_iff.mp ht
      unfold startsTarget
      split
      next name => exact absurd rfl (h1 name mid)
      next name => exact absurd rfl (h2 name mid)
      next => exact absurd rfl (h3 mid)
      next => exact absurd rfl (h4 mid)
      next => exact absurd rfl (h5 mid)
      next => rfl
  · rintro (⟨m, rfl, rfl⟩ | ⟨mid, step, rfl, rfl, h⟩ | ⟨mid, step, rfl, rfl, h⟩ | ⟨ht, rfl, rfl⟩)
    · cases m <;> exact Reads.ok_iff.mpr ⟨rfl, rfl⟩
    · simpa [readRecursion] using h
    · simpa [readRecursion] using h
    · rw [readRecursion.eq_def]
      split <;> simp_all [startsTarget]

theorem readSegment?_iff {steps : List Step} :
    ReadsSome (readSegment? ts) steps rest ↔
      (∃ mid step, ts = .symbol .dot :: mid ∧ [step] = steps ∧ Reads (readMember mid) step rest) ∨
      (∃ mid, ts = .symbol .recurse :: mid ∧ Reads (readRecursion mid) steps rest) ∨
      (∃ mid step, ts = .symbol .bracketOpen :: mid ∧ [step] = steps ∧
        Reads (readBracket mid) step rest) ∨
      (∃ mid step, ts = .symbol .braceOpen :: mid ∧ [step] = steps ∧
        Reads (readBrace mid) step rest) ∨
      (∃ c, ts = .coercion (Coercion.word c) :: rest ∧ [.coerce c] = steps) := by
  rw [readSegment?.eq_def]
  split
  next => simp
  next => simp
  next => simp
  next => simp
  next name mid =>
    cases hc : Coercion.ofName? name with
    | none => simp [← Coercion.ofName?_eq_some, hc]
    | some c => simp [← Coercion.ofName?_eq_some, hc, and_comm]
  next h1 h2 h3 h4 h5 =>
    have h1 : ∀ mid, ts ≠ .symbol .dot :: mid := h1
    have h2 : ∀ mid, ts ≠ .symbol .recurse :: mid := h2
    have h3 : ∀ mid, ts ≠ .symbol .bracketOpen :: mid := h3
    have h4 : ∀ mid, ts ≠ .symbol .braceOpen :: mid := h4
    have h5 : ∀ name mid, ts ≠ .coercion name :: mid := h5
    simp [h1, h2, h3, h4, h5]

end Step
end PathQuery
