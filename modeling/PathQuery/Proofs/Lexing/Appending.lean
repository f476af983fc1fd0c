import PathQuery.Proofs.Lexing.Layout

/-! Text behind a path text.
No lexeme goes on with a blank or a minus sign. So text that starts with one of these leaves the
tokens in front of it as they are; of these only the last one matters for its own tokens, since it
tells whether a number may have a sign. -/
namespace PathQuery.Token

/-- Whether a number may have a sign after some tokens, given whether it may in front of them. -/
def signAfter : Bool → List Token → Bool
  | signed, [] => signed
  | _, t :: ts => signAfter (!t.endsOperand) ts

/-- Whether a character goes on with no lexeme. -/
def divides (c : Char) : Bool := c == '-' || Text.isBlank c

/-- Text that goes on with no lexeme in front of it. -/
def Divided (tail : List Char) : Prop := ∀ c ∈ tail.head?, divides c = true

/-- A rule that does the same on a text whatever stands behind it, if that goes on with no lexeme. -/
structure Firm {α : Type} (rule : List Char → Option (α × List Char)) : Prop where
  reads : ∀ {cs a rest tail}, Divided tail → cs ≠ [] → rule cs = some (a, rest) →
    rule (cs ++ tail) = some (a, rest ++ tail)
  narrows : ∀ {cs a rest tail}, Divided tail → cs ≠ [] → rule (cs ++ tail) = some (a, rest) →
    rule cs ≠ none

variable {α β : Type} {p : Char → Bool} {c q : Char} {cs rest tail word gap : List Char} {t : Token}
  {ts : List Token} {signed : Bool}

/-! ## Characters that divide -/

/-- A condition that neither a minus sign nor a blank meets. -/
theorem eq_false_of_divides (hminus : p '-' = false)
    (hblank : ∀ c, p c = true → Text.isBlank c = false) (h : divides c = true) : p c = false := by
  have hc : c = '-' ∨ Text.isBlank c = true := by simpa [divides] using h
  rcases hc with rfl | hc
  · exact hminus
  · by_contra hp
    rw [hblank c (by simpa using hp)] at hc
    cases hc

theorem divides_eq_false (hminus : p '-' = false)
    (hblank : ∀ c, p c = true → Text.isBlank c = false) (h : p c = true) : divides c = false := by
  by_contra hd
  rw [eq_false_of_divides hminus hblank (by simpa using hd)] at h
  cases h

theorem divides_of_isDigit (h : c.isDigit = true) : divides c = false :=
  divides_eq_false rfl (fun _ => isBlank_of_isDigit) h

theorem divides_of_mem_identifier (h : isIdentifier (String.ofList word) = true) :
    ∀ c ∈ word, divides c = false := by
  obtain ⟨c, cs, rfl, hc, hcs⟩ := isIdentifier_ofList h
  refine List.forall_mem_cons.mpr ⟨?_, ?_⟩
  · exact divides_eq_false rfl (fun _ => isBlank_of_startsIdentifier) hc
  · intro d hd
    exact divides_eq_false rfl (fun _ => isBlank_of_inIdentifier) (hcs d hd)

/-- A minus sign is a symbol by itself, and no symbol goes on with one. -/
theorem divides_of_mem_spelling (s : Symbol) : ∀ c ∈ s.spelling.toList.tail, divides c = false := by
  have hall : s.spelling.toList.tail.all (fun c => !divides c) = true := by cases s <;> rfl
  simpa using hall

/-- What does not hold of the next character does not hold of it in front of more text either. -/
theorem head_append (hd : Divided tail) (hminus : p '-' = false)
    (hblank : ∀ c, p c = true → Text.isBlank c = false) (hr : ∀ c ∈ rest.head?, p c = false) :
    ∀ c ∈ (rest ++ tail).head?, p c = false := by
  cases rest with
  | nil => exact fun c hc => eq_false_of_divides hminus hblank (hd c hc)
  | cons d rest => exact hr

/-- A word that divides nowhere does not reach from one text into the next. -/
theorem isPrefix_of_append (hd : Divided tail) (hcs : cs ≠ [])
    (hword : ∀ c ∈ word.tail, divides c = false) (h : word <+: cs ++ tail) : word <+: cs := by
  rcases List.prefix_or_prefix_of_prefix h (List.prefix_append cs tail) with hp | ⟨more, rfl⟩
  · exact hp
  · cases more with
    | nil => simp
    | cons c more =>
      have hmore : c :: more <+: tail := (List.prefix_append_right_inj cs).mp h
      have hc : divides c = true := hd c (by
        obtain ⟨after, rfl⟩ := hmore
        rfl)
      have hin : c ∈ (cs ++ c :: more).tail := by
        obtain ⟨d, ds, rfl⟩ := List.exists_cons_of_ne_nil hcs
        simp
      rw [hword c hin] at hc
      cases hc

/-! ## The rules -/

namespace Firm

variable {rule rule' : List Char → Option (α × List Char)}

theorem fails (h : Firm rule) (hd : Divided tail) (hcs : cs ≠ []) (hn : rule cs = none) :
    rule (cs ++ tail) = none :=
  Option.eq_none_iff_forall_ne_some.mpr fun _ hr => h.narrows hd hcs hr hn

theorem or (h : Firm rule) (h' : Firm rule') : Firm fun cs => (rule cs).or (rule' cs) where
  reads hd hcs hr := by
    rcases Option.or_eq_some_iff.mp hr with hr | ⟨hn, hr⟩
    · rw [h.reads hd hcs hr, Option.some_or]
    · rw [h.fails hd hcs hn, Option.none_or, h'.reads hd hcs hr]
  narrows hd hcs hr hn := by
    obtain ⟨hn, hn'⟩ := Option.or_eq_none_iff.mp hn
    rw [h.fails hd hcs hn, h'.fails hd hcs hn'] at hr
    cases hr

theorem map (f : α → β) (h : Firm rule) : Firm fun cs => (rule cs).map fun r => (f r.1, r.2) where
  reads hd hcs hr := by
    obtain ⟨⟨a, rest⟩, hread, he⟩ := Option.map_eq_some_iff.mp hr
    cases he
    rw [h.reads hd hcs hread, Option.map_some]
  narrows hd hcs hr hn := by
    obtain ⟨_, hread, _⟩ := Option.map_eq_some_iff.mp hr
    exact h.narrows hd hcs hread (Option.map_eq_none_iff.mp hn)

end Firm

theorem endsBefore_append {x : Lexeme} (hd : Divided tail) (h : x.EndsBefore rest) :
    x.EndsBefore (rest ++ tail) where
  digit := head_append hd rfl (fun _ => isBlank_of_isDigit) h.digit
  fraction hx c hc hprefix := by
    cases rest with
    | nil =>
      -- a text that divides does not start with a point
      obtain ⟨more, rfl⟩ := hprefix
      cases hd '.' rfl
    | cons d rest =>
      have hword : ∀ e ∈ ['.', c].tail, divides e = false := by
        simpa using divides_of_isDigit hc
      exact h.fraction hx c hc (isPrefix_of_append hd (List.cons_ne_nil d rest) hword hprefix)

/-- The sign and the first digit of a lexeme are one, which comes first. -/
theorem exists_short_lexeme (x : Lexeme) : ∃ y : Lexeme, y.negative = x.negative ∧
    y.chars <+: x.chars ∧ ∀ c ∈ y.chars.tail, divides c = false := by
  obtain ⟨d, ds, hx, hdigit⟩ := unsigned_eq_cons x
  refine ⟨⟨x.negative, [d], [], by simp, by simpa using hdigit, by simp⟩, rfl, ?_, ?_⟩
  · rw [Lexeme.chars, Lexeme.chars, hx]
    split <;> simp [Lexeme.unsigned]
  · rw [Lexeme.chars]
    split <;> simp [Lexeme.unsigned, divides_of_isDigit hdigit]

theorem firm_readNumber (signed : Bool) : Firm (readNumber? signed) where
  reads hd _ h := by
    obtain ⟨x, hs, rfl, rfl, hends⟩ := readNumber?_eq_some h
    rw [List.append_assoc]
    exact readNumber?_append hs (endsBefore_append hd hends)
  narrows hd hcs h := by
    obtain ⟨x, hs, _, htext, _⟩ := readNumber?_eq_some h
    obtain ⟨y, hsign, hy, hword⟩ := exists_short_lexeme x
    have hprefix : y.chars <+: _ := hy.trans ⟨_, htext.symm⟩
    obtain ⟨rest, rfl⟩ := isPrefix_of_append hd hcs hword hprefix
    exact readNumber?_ne_none fun hn => hs (hsign ▸ hn)

theorem firm_readCoercion : Firm readCoercion? where
  reads hd _ h := by
    obtain ⟨hname, rfl⟩ := readCoercion?_eq_some h
    simpa using readCoercion?_of_isIdentifier hname
  narrows {cs name rest tail} hd hcs h := by
    obtain ⟨hname, htext⟩ := readCoercion?_eq_some h
    have hclose : divides '>' = false := by decide
    have hword : ∀ c ∈ ('<' :: (name ++ ['>'])).tail, divides c = false := by
      rw [List.tail_cons]
      exact List.forall_mem_append.mpr ⟨divides_of_mem_identifier hname, by simpa using hclose⟩
    have hprefix : '<' :: (name ++ ['>']) <+: cs ++ tail := ⟨rest, by simp [htext]⟩
    obtain ⟨more, rfl⟩ := isPrefix_of_append hd hcs hword hprefix
    simp [readCoercion?_of_isIdentifier hname]

theorem firm_readSymbol : Firm readSymbol? where
  reads hd hcs h := by
    obtain ⟨before, after, hall, rfl, hbefore⟩ := readSymbol?_eq_some_iff.mp h
    refine readSymbol?_eq_some_iff.mpr ⟨before, after, hall, List.append_assoc .., ?_⟩
    intro s hs hprefix
    exact hbefore s hs (isPrefix_of_append hd hcs (divides_of_mem_spelling s) hprefix)
  narrows {cs s rest tail} hd hcs h hn := by
    obtain ⟨_, _, _, htext, _⟩ := readSymbol?_eq_some_iff.mp h
    have hprefix : s.spelling.toList <+: cs ++ tail := ⟨rest, htext.symm⟩
    exact readSymbol?_eq_none_iff.mp hn s
      (isPrefix_of_append hd hcs (divides_of_mem_spelling s) hprefix)

theorem firm_readIdentifier : Firm readIdentifier? where
  reads hd _ h := by
    obtain ⟨hname, rfl, hrest⟩ := readIdentifier?_eq_some h
    rw [List.append_assoc]
    exact readIdentifier?_of_isIdentifier hname
      (head_append hd rfl (fun _ => isBlank_of_inIdentifier) hrest)
  narrows {cs name rest tail} hd hcs h := by
    obtain ⟨hname, htext, _⟩ := readIdentifier?_eq_some h
    obtain ⟨c, name, rfl, hc, _⟩ := isIdentifier_ofList hname
    have hprefix : [c] <+: cs ++ tail := ⟨name ++ rest, by simp [htext]⟩
    obtain ⟨more, rfl⟩ := isPrefix_of_append hd hcs (by simp) hprefix
    simp [readIdentifier?, hc]

/-- The rules that are tried where no quoted text stands. -/
def readUnquoted? (signed : Bool) (cs : List Char) : Option (Token × List Char) :=
  ((readNumber? signed cs).map fun r => (.number r.1.toDouble, r.2)).or
    (((readCoercion? cs).map fun r => (.coercion (String.ofList r.1), r.2)).or
      (((readSymbol? cs).map fun r => (.symbol r.1, r.2)).or
        ((readIdentifier? cs).map fun r => (.identifier (String.ofList r.1), r.2))))

theorem read?_eq (signed : Bool) (cs : List Char) : read? signed cs =
    ((readQuoted? cs).map fun r => (.string (String.ofList r.1), r.2)).or
      (readUnquoted? signed cs) := by
  simp only [read?, readUnquoted?, Option.orElse_eq_orElse, Option.orElse_eq_or]

theorem firm_readUnquoted (signed : Bool) : Firm (readUnquoted? signed) := by
  have hnumber := (firm_readNumber signed).map fun n => number n.toDouble
  have hcoercion := firm_readCoercion.map fun name => coercion (String.ofList name)
  have hsymbol := firm_readSymbol.map symbol
  have hidentifier := firm_readIdentifier.map fun name => identifier (String.ofList name)
  exact hnumber.or (hcoercion.or (hsymbol.or hidentifier))

/-- Of the other rules none reads a quote. -/
theorem readUnquoted?_quote (hq : q = '\'' ∨ q = '"') (cs : List Char) :
    readUnquoted? signed (q :: cs) = none := by
  rcases hq with rfl | rfl <;> rfl

/-- The next token of a text stays as it is in front of text that goes on with no lexeme. A quote
that is not closed does not come up, since nothing reads it. -/
theorem read?_divided (hd : Divided tail) (hcs : cs ≠ []) (h : read? signed cs = some (t, rest)) :
    read? signed (cs ++ tail) = some (t, rest ++ tail) := by
  rw [read?_eq] at h ⊢
  rcases Option.or_eq_some_iff.mp h with h | ⟨hn, h⟩
  · obtain ⟨⟨text, after⟩, hread, he⟩ := Option.map_eq_some_iff.mp h
    cases he
    obtain ⟨q, hq, ht, rfl⟩ := readQuoted?_eq_some hread
    have hwider : readQuoted? (q :: (text ++ q :: after) ++ tail) = some (text, after ++ tail) := by
      simpa using readQuoted?_append hq ht
    rw [hwider, Option.map_some, Option.some_or]
  · obtain ⟨c, more, rfl⟩ := List.exists_cons_of_ne_nil hcs
    have hc : c ≠ '\'' ∧ c ≠ '"' := by
      constructor
      · rintro rfl
        rw [readUnquoted?_quote (.inl rfl)] at h
        cases h
      · rintro rfl
        rw [readUnquoted?_quote (.inr rfl)] at h
        cases h
    have hquoted : readQuoted? (c :: (more ++ tail)) = none := readQuoted?_eq_none hc
    rw [List.cons_append, hquoted, Option.map_none, Option.none_or]
    exact (firm_readUnquoted signed).reads hd hcs h

/-! ## All tokens of a text -/

theorem readAll_of_none (h : Text.trimStart cs = c :: rest)
    (hr : read? signed (c :: rest) = none) : readAll signed cs = .error (.noToken c) := by
  rw [readAll]
  split
  next hnil =>
    rw [h] at hnil
    cases hnil
  next hcons =>
    rw [h] at hcons
    cases hcons
    split
    next => rfl
    next hs =>
      rw [hr] at hs
      cases hs

/-- All that counts of a text is its first token and what follows it. -/
theorem readAll_congr {signed' : Bool} {cs' : List Char}
    (htrim : Text.trimStart cs = Text.trimStart cs')
    (hread : read? signed (Text.trimStart cs') = read? signed' (Text.trimStart cs')) :
    readAll signed cs = readAll signed' cs' := by
  cases hc : Text.trimStart cs' with
  | nil => rw [readAll_of_nil (htrim.trans hc), readAll_of_nil hc]
  | cons c after =>
    rw [hc] at htrim hread
    cases hr : read? signed' (c :: after) with
    | none => rw [readAll_of_none htrim (hread.trans hr), readAll_of_none hc hr]
    | some r =>
      have hne : Text.trimStart cs ≠ [] := by simp [htrim]
      have hne' : Text.trimStart cs' ≠ [] := by simp [hc]
      rw [readAll_of_read hne (by rw [htrim, hread, hr]), readAll_of_read hne' (by rw [hc, hr])]

/-- Blanks in front of a text do not matter. -/
theorem readAll_blank_append (hgap : ∀ c ∈ gap, Text.isBlank c = true) (cs : List Char) :
    readAll signed (gap ++ cs) = readAll signed cs :=
  readAll_congr (List.dropWhile_append_of_pos hgap) rfl

/-- Text that goes on with no lexeme has its own tokens behind those of the text in front. -/
theorem readAll_divided (hd : Divided tail) (h : readAll signed cs = .ok (ts ++ [.finish])) :
    readAll signed (cs ++ tail) = (readAll (signAfter signed ts) tail).map (ts ++ ·) := by
  fun_induction readAll signed cs generalizing ts with
  | case1 signed cs hcs =>
    obtain rfl : ts = [] := by simpa using h
    have hblank : ∀ c ∈ cs, Text.isBlank c = true := List.dropWhile_eq_nil_iff.mp hcs
    rw [readAll_blank_append hblank, signAfter]
    cases readAll signed tail <;> rfl
  | case2 signed cs c after hcs hn => cases h
  | case3 signed cs c after hcs t rest hr ih =>
    cases hts : readAll (!t.endsOperand) rest with
    | error e =>
      rw [hts] at h
      cases h
    | ok ts' =>
      obtain ⟨tokens, _, _, rfl, _⟩ := exists_layout_readAll hts
      obtain rfl : t :: tokens = ts := by
        rw [hts] at h
        have hlist : t :: (tokens ++ [.finish]) = ts ++ [.finish] := by simpa [Except.map] using h
        exact List.append_cancel_right hlist
      obtain ⟨lexeme, hlexeme, hspells, _⟩ := (steady_read signed).reads hr
      obtain ⟨gap, hgap, rfl⟩ := exists_gap (hcs.trans hlexeme)
      have hread : read? signed (lexeme ++ (rest ++ tail)) = some (t, rest ++ tail) := by
        rw [← List.append_assoc, ← hlexeme]
        exact read?_divided hd (List.cons_ne_nil c after) hr
      rw [List.append_assoc, List.append_assoc, readAll_append hgap hspells hread, ih hts,
        signAfter]
      cases readAll (signAfter (!t.endsOperand) tokens) tail <;> rfl

end PathQuery.Token
