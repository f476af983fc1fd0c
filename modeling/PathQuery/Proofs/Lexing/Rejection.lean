import PathQuery.Proofs.Lexing.Appending

/-! Path texts that have no tokens.
The lexer refuses a text exactly where no lexeme stands at its start, so the kinds of such texts can be
told from how tokens are written. What it has accepted before has the same tokens without the rest. -/
namespace PathQuery.Token

open Text (Widens)

/-- The characters that are symbols by themselves. -/
def marks : List Char :=
  ['$', '@', '.', '*', '(', ')', '[', ']', '\x7b', '\x7d', ',', ':', '<', '>', '+', '-', '/', '!']

/-- The characters that start a symbol only in front of another one, each with this other one. -/
def halves : List (Char × Char) := [('?', '('), ('=', '='), ('&', '&'), ('|', '|')]

/-- Whether a token can start with a character. -/
def startsToken (c : Char) : Bool :=
  inIdentifier c || c == '\'' || c == '"' || marks.contains c || (halves.map Prod.fst).contains c

/-- A text that starts with neither a blank nor a token: with a quote that is not closed, with one half
of a symbol, or with a character with which no token starts. -/
inductive Unreadable : List Char → Prop
  | quote {q : Char} {rest : List Char} (hq : q = '\'' ∨ q = '"') (h : q ∉ rest) :
    Unreadable (q :: rest)
  | half {c d : Char} {rest : List Char} (hc : (c, d) ∈ halves) (h : rest.head? ≠ some d) :
    Unreadable (c :: rest)
  | stranger {c : Char} {rest : List Char} (hblank : Text.isBlank c = false)
    (h : startsToken c = false) : Unreadable (c :: rest)

variable {c d : Char} {cs rest tail lexeme : List Char} {t : Token} {signed : Bool}

/-! ## Texts that start with a lexeme -/

/-- A text that starts with a lexeme starts with a token, though perhaps with another one. -/
theorem read?_ne_none (signed : Bool) (h : Spells lexeme t) (rest : List Char) :
    read? signed (lexeme ++ rest) ≠ none := by
  simp only [read?, Option.orElse_eq_orElse, Option.orElse_eq_or, ne_eq, Option.or_eq_none_iff,
    Option.map_eq_none_iff]
  rintro ⟨hquoted, hnumber, hcoercion, hsymbol, hidentifier⟩
  have hsymbols : ∀ s : Symbol, ¬ s.spelling.toList <+: lexeme ++ rest :=
    readSymbol?_eq_none_iff.mp hsymbol
  cases h with
  | identifier hname =>
    obtain ⟨c, cs, hcs, hc, _⟩ := isIdentifier_eq_true hname
    simp [hcs, readIdentifier?, hc] at hidentifier
  | string hq _ => exact readQuoted?_ne_none hq (by simp) hquoted
  | number x =>
    -- where no sign is allowed the minus sign of a number is a symbol
    by_cases hs : x.negative = true → signed = true
    · exact readNumber?_ne_none hs hnumber
    · obtain ⟨hnegative, _⟩ := Classical.not_imp.mp hs
      refine hsymbols .minus ⟨x.unsigned ++ rest, ?_⟩
      rw [Lexeme.chars, if_pos hnegative]
      rfl
  | coercion hname =>
    rename_i name
    have hread : readCoercion? ('<' :: (name.toList ++ '>' :: rest)) = some (name.toList, rest) :=
      readCoercion?_of_isIdentifier (by simpa using hname)
    simp [hread] at hcoercion
  | symbol s => exact hsymbols s (List.prefix_append _ _)

/-- The lexer refuses a text if no lexeme stands at its start, whatever sign may be allowed. -/
theorem read?_eq_none_iff :
    read? signed cs = none ↔ ∀ lexeme t, Spells lexeme t → ¬ lexeme <+: cs := by
  constructor
  · rintro hn lexeme t hs ⟨rest, rfl⟩
    exact read?_ne_none signed hs rest hn
  · intro h
    refine Option.eq_none_iff_forall_ne_some.mpr fun ⟨t, rest⟩ hr => ?_
    obtain ⟨lexeme, hcs, hs, _⟩ := (steady_read signed).reads hr
    exact h lexeme t hs ⟨rest, hcs.symm⟩

/-- What is read from a text does not change when text behind it is cut off. -/
theorem read?_cut (tail : List Char) (h : read? signed (cs ++ tail) = some (t, rest ++ tail)) :
    read? signed cs = some (t, rest) := by
  obtain ⟨lexeme, htext, hs, hwiden⟩ := (steady_read signed).reads h
  obtain rfl : cs = lexeme ++ rest :=
    List.append_cancel_right (htext.trans (List.append_assoc ..).symm)
  -- the text to be cut off is first moved behind a blank, where the lexer does not see it
  have hsame : Widens tail tail := by simpa using Widens.nil.append_left tail
  have hread : read? signed (lexeme ++ (rest ++ ' ' :: tail)) = some (t, rest ++ ' ' :: tail) :=
    hwiden _ (.append_left rest (.blank rfl hsame))
  obtain ⟨⟨t', rest'⟩, hcut⟩ := Option.ne_none_iff_exists'.mp (read?_ne_none signed hs rest)
  have hdivided : Divided (' ' :: tail) := by
    have hblank : Text.isBlank ' ' = true := rfl
    simp [Divided, divides, hblank]
  have hback := read?_divided hdivided (List.append_ne_nil_of_left_ne_nil hs.ne_nil rest) hcut
  rw [List.append_assoc, hread] at hback
  obtain ⟨rfl, hrest⟩ := Prod.mk.inj (Option.some.inj hback)
  rw [hcut, List.append_cancel_right hrest]

/-! ## How such texts start -/

/-- A text that starts with a closed quoted text, a character of an identifier or number, or a symbol,
the shortest one if there are several. -/
inductive Opening : List Char → Prop
  | quoted {q : Char} {rest : List Char} (hq : q = '\'' ∨ q = '"') (h : q ∈ rest) :
    Opening (q :: rest)
  | word {c : Char} {rest : List Char} (h : inIdentifier c = true) : Opening (c :: rest)
  | mark {c : Char} {rest : List Char} (h : c ∈ marks) : Opening (c :: rest)
  | pair {c d : Char} {rest : List Char} (h : (c, d) ∈ halves) : Opening (c :: d :: rest)

theorem exists_symbol_of_mem_marks (h : c ∈ marks) : ∃ s : Symbol, s.spelling.toList = [c] := by
  have hall : marks.all (fun c => symbols.any fun s => s.spelling.toList == [c]) = true := rfl
  obtain ⟨s, _, hs⟩ := List.any_eq_true.mp (List.all_eq_true.mp hall c h)
  exact ⟨s, eq_of_beq hs⟩

theorem exists_symbol_of_mem_halves (h : (c, d) ∈ halves) :
    ∃ s : Symbol, s.spelling.toList = [c, d] := by
  have hall : halves.all (fun p => symbols.any fun s => s.spelling.toList == [p.1, p.2]) = true :=
    rfl
  obtain ⟨s, _, hs⟩ := List.any_eq_true.mp (List.all_eq_true.mp hall (c, d) h)
  exact ⟨s, eq_of_beq hs⟩

theorem opening_symbol (s : Symbol) (rest : List Char) : Opening (s.spelling.toList ++ rest) := by
  have hall : (marks.any (fun c => [c].isPrefixOf s.spelling.toList) ||
      halves.any fun p => [p.1, p.2].isPrefixOf s.spelling.toList) = true := by
    cases s <;> rfl
  rcases (Bool.or_eq_true _ _).mp hall with h | h
  · obtain ⟨c, hc, hprefix⟩ := List.any_eq_true.mp h
    obtain ⟨more, hmore⟩ := List.isPrefixOf_iff_prefix.mp hprefix
    rw [← hmore]
    exact .mark hc
  · obtain ⟨p, hp, hprefix⟩ := List.any_eq_true.mp h
    obtain ⟨more, hmore⟩ := List.isPrefixOf_iff_prefix.mp hprefix
    rw [← hmore]
    exact .pair hp

theorem Spells.opening (h : Spells lexeme t) (rest : List Char) : Opening (lexeme ++ rest) := by
  cases h with
  | identifier hname =>
    obtain ⟨c, cs, hcs, hc, _⟩ := isIdentifier_eq_true hname
    rw [hcs]
    exact .word (by rw [inIdentifier_eq, hc, Bool.true_or])
  | string hq _ => exact .quoted hq (by simp)
  | number x =>
    obtain ⟨c, cs, hx, hc⟩ := unsigned_eq_cons x
    rw [Lexeme.chars, hx]
    split
    · exact .mark (by decide)
    · exact .word (by rw [inIdentifier_eq, hc, Bool.or_true])
  | coercion _ => exact .mark (by decide)
  | symbol s => exact opening_symbol s rest

theorem exists_lexeme (h : Opening cs) : ∃ lexeme t, Spells lexeme t ∧ lexeme <+: cs := by
  cases h with
  | quoted hq h =>
    rename_i q rest
    obtain ⟨text, more, rfl, htext⟩ := List.eq_append_cons_of_mem h
    have hs : Spells (q :: ((String.ofList text).toList ++ [q])) (.string (String.ofList text)) :=
      .string hq (by simpa using htext)
    exact ⟨_, _, hs, more, by simp⟩
  | word h =>
    rename_i c rest
    rw [inIdentifier_eq] at h
    rcases (Bool.or_eq_true _ _).mp h with hc | hc
    · have hs : Spells (String.ofList [c]).toList (.identifier (String.ofList [c])) :=
        .identifier (by simp [isIdentifier, hc])
      exact ⟨_, _, hs, by simp⟩
    · have hs : Spells [c] (.number _) :=
        .number ⟨false, [c], [], List.cons_ne_nil c [], by simpa using hc, by simp⟩
      exact ⟨_, _, hs, by simp⟩
  | mark h =>
    obtain ⟨s, hs⟩ := exists_symbol_of_mem_marks h
    exact ⟨_, _, .symbol s, by simp [hs]⟩
  | pair h =>
    obtain ⟨s, hs⟩ := exists_symbol_of_mem_halves h
    exact ⟨_, _, .symbol s, by simp [hs]⟩

theorem Opening.startsToken (h : Opening (c :: rest)) : startsToken c = true := by
  cases h with
  | quoted hq _ => rcases hq with rfl | rfl <;> rfl
  | word h => simp [Token.startsToken, h]
  | mark h => simp [Token.startsToken, h]
  | pair h =>
    have hfirst : c ∈ halves.map Prod.fst := List.mem_map_of_mem h
    simp [Token.startsToken, -List.mem_map, hfirst]

theorem of_mem_halves (h : (c, d) ∈ halves) :
    c ≠ '\'' ∧ c ≠ '"' ∧ inIdentifier c = false ∧ c ∉ marks ∧ ∀ e, (c, e) ∈ halves → e = d := by
  simp only [halves, List.mem_cons, Prod.mk.injEq, List.not_mem_nil, or_false] at h
  rcases h with ⟨rfl, rfl⟩ | ⟨rfl, rfl⟩ | ⟨rfl, rfl⟩ | ⟨rfl, rfl⟩ <;>
    exact ⟨by decide, by decide, by decide, by decide, by simp [halves]⟩

theorem Unreadable.not_opening (h : Unreadable cs) : ¬ Opening cs := by
  intro hopening
  cases h with
  | quote hq hmem =>
    cases hopening with
    | quoted _ h => exact hmem h
    | word h => rcases hq with rfl | rfl <;> exact absurd h (by decide)
    | mark h => rcases hq with rfl | rfl <;> exact absurd h (by decide)
    | pair h => exact hq.elim (of_mem_halves h).1 (of_mem_halves h).2.1
  | half hc hhead =>
    obtain ⟨hsingle, hdouble, hword, hmark, hunique⟩ := of_mem_halves hc
    cases hopening with
    | quoted hq _ => exact hq.elim hsingle hdouble
    | word h =>
      rw [hword] at h
      cases h
    | mark h => exact hmark h
    | pair h => exact hhead (congrArg some (hunique _ h))
  | stranger _ h =>
    rw [hopening.startsToken] at h
    cases h

theorem unreadable_of_not_opening (hblank : Text.isBlank c = false) (h : ¬ Opening (c :: rest)) :
    Unreadable (c :: rest) := by
  by_cases hq : c = '\'' ∨ c = '"'
  · exact .quote hq fun hmem => h (.quoted hq hmem)
  by_cases hhalf : ∃ d, (c, d) ∈ halves
  · obtain ⟨d, hd⟩ := hhalf
    refine .half hd fun hhead => ?_
    obtain ⟨more, rfl⟩ := List.head?_eq_some_iff.mp hhead
    exact h (.pair hd)
  · refine .stranger hblank ?_
    have hword : inIdentifier c = false := by
      by_contra hc
      exact h (.word (by simpa using hc))
    have hmark : c ∉ marks := fun hc => h (.mark hc)
    have hother : c ∉ halves.map Prod.fst := by
      rintro hc
      obtain ⟨p, hp, rfl⟩ := List.mem_map.mp hc
      exact hhalf ⟨p.2, hp⟩
    obtain ⟨hsingle, hdouble⟩ := not_or.mp hq
    simp [startsToken, hword, hsingle, hdouble, hmark, -List.mem_map, hother]

theorem Unreadable.head (h : Unreadable cs) : ∃ c rest, cs = c :: rest ∧ Text.isBlank c = false := by
  cases h with
  | quote hq _ => exact ⟨_, _, rfl, by rcases hq with rfl | rfl <;> decide⟩
  | half hc _ =>
    have hall : halves.all (fun p => !Text.isBlank p.1) = true := rfl
    exact ⟨_, _, rfl, by simpa using List.all_eq_true.mp hall _ hc⟩
  | stranger hblank _ => exact ⟨_, _, rfl, hblank⟩

/-- What the lexer refuses, behind blanks, is what no lexeme opens. -/
theorem read?_eq_none_iff_unreadable (hblank : Text.isBlank c = false) :
    read? signed (c :: rest) = none ↔ Unreadable (c :: rest) := by
  rw [read?_eq_none_iff]
  constructor
  · refine fun h => unreadable_of_not_opening hblank fun hopening => ?_
    obtain ⟨lexeme, t, hs, hprefix⟩ := exists_lexeme hopening
    exact h lexeme t hs hprefix
  · rintro h lexeme t hs ⟨more, hmore⟩
    exact h.not_opening (hmore ▸ hs.opening more)

/-! ## All rejections -/

theorem exists_unreadable {e : PathError} (h : readAll signed cs = .error e) :
    ∃ front c rest ts, e = .noToken c ∧ cs = front ++ c :: rest ∧ readAll signed front = .ok ts ∧
      Unreadable (c :: rest) := by
  -- along the lexer's own recursion: each token in front of the place is read again without the rest
  fun_induction readAll signed cs with
  | case1 signed cs hcs => cases h
  | case2 signed cs c after hcs hn =>
    cases h
    obtain ⟨gap, hgap, rfl⟩ := exists_gap hcs
    have hblank : Text.isBlank c = false := head_dropWhile _ _ c (by rw [← Text.trimStart, hcs]; rfl)
    exact ⟨gap, c, after, _, rfl, rfl, readAll_blank hgap,
      (read?_eq_none_iff_unreadable hblank).mp hn⟩
  | case3 signed cs c after hcs t rest hr ih =>
    cases hrest : readAll (!t.endsOperand) rest with
    | ok ts =>
      rw [hrest] at h
      cases h
    | error e' =>
      rw [hrest] at h
      cases h
      obtain ⟨front, d, more, ts, he, rfl, hfront, hunreadable⟩ := ih hrest
      obtain ⟨lexeme, hlexeme, hspells, _⟩ := (steady_read signed).reads hr
      obtain ⟨gap, hgap, rfl⟩ := exists_gap (hcs.trans hlexeme)
      have hcut : read? signed (lexeme ++ front) = some (t, front) := by
        refine read?_cut (d :: more) ?_
        rw [List.append_assoc, ← hlexeme, hr]
      refine ⟨gap ++ (lexeme ++ front), d, more, t :: ts, he, by simp, ?_, hunreadable⟩
      rw [readAll_append hgap hspells hcut, hfront]
      rfl

/-- Where a path text is rejected, it splits into a part that has tokens and a rest that starts with the
character to blame: the quote of a text that is not closed, one half of a symbol without the other, or
a character with which no token starts. Each such rest is rejected by itself for the same character,
and no lexeme stands at its start. -/
theorem rejected_at_unreadable :
    (∀ path e, ofText path = .error e →
      ∃ front c rest ts, e = .noToken c ∧ path.toList = front ++ c :: rest ∧
        ofText (String.ofList front) = .ok ts ∧ Unreadable (c :: rest)) ∧
    ∀ c rest, Unreadable (c :: rest) →
      ofText (String.ofList (c :: rest)) = .error (.noToken c) ∧
      ∀ lexeme t, Spells lexeme t → ¬ lexeme <+: c :: rest := by
  constructor
  · intro path e h
    obtain ⟨front, c, rest, ts, he, hpath, hfront, hunreadable⟩ := exists_unreadable h
    exact ⟨front, c, rest, ts, he, hpath, by rw [ofText, String.toList_ofList, hfront], hunreadable⟩
  · intro c rest h
    obtain ⟨_, _, hcons, hblank⟩ := h.head
    cases hcons
    have hnone : read? true (c :: rest) = none := (read?_eq_none_iff_unreadable hblank).mpr h
    have htrim : Text.trimStart (c :: rest) = c :: rest :=
      List.dropWhile_cons_of_neg (by simp [hblank])
    refine ⟨?_, read?_eq_none_iff.mp hnone⟩
    rw [ofText, String.toList_ofList, readAll_of_none htrim hnone]

/-- A quote that is not closed behind a bracket, and a question mark without a parenthesis. -/
theorem rejected_at_unreadable_sample :
    ofText "$.a[ 'it" = .error (.noToken '\'') ∧
    (∃ front c rest ts, PathError.noToken '\'' = .noToken c ∧
      "$.a[ 'it".toList = front ++ c :: rest ∧ ofText (String.ofList front) = .ok ts ∧
      Unreadable (c :: rest)) ∧
    Unreadable ['?', '@', ']'] ∧ ofText "?@]" = .error (.noToken '?') := by
  have hreject : ofText "$.a[ 'it" = .error (.noToken '\'') := by decide +kernel
  have hparen : ('?', '(') ∈ halves := by decide
  have hhalf : Unreadable ['?', '@', ']'] := .half hparen (by decide)
  obtain ⟨hsplit, hback⟩ := rejected_at_unreadable
  exact ⟨hreject, hsplit _ _ hreject, hhalf, (hback _ _ hhalf).1⟩

end PathQuery.Token
