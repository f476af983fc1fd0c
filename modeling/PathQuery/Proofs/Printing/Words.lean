import Mathlib.Tactic.Common
import PathQuery.Coercion
import PathQuery.Token.Lexer

/-! Words: tokens together with how they are written.
Words with a blank between them are read back as their tokens, one after the other, provided that no
number with a minus sign follows a token at which an operand can end. -/
namespace PathQuery

/-- A decimal numeral as a path may hold it: digits, perhaps a minus sign and perhaps a fraction. -/
structure Lexeme where
  negative : Bool
  whole : List Char
  fraction : List Char
  whole_ne_nil : whole ≠ []
  whole_digits : ∀ c ∈ whole, c.isDigit = true
  fraction_digits : ∀ c ∈ fraction, c.isDigit = true

namespace Lexeme

def numeral (x : Lexeme) : Numeral := ⟨x.negative, x.whole, x.fraction, 0⟩

/-- The number that is read from a lexeme. -/
def value (x : Lexeme) : Double := x.numeral.toDouble

def unsigned (x : Lexeme) : List Char :=
  x.whole ++ if x.fraction = [] then [] else '.' :: x.fraction

def chars (x : Lexeme) : List Char := if x.negative then '-' :: x.unsigned else x.unsigned

/-- What stands behind a lexeme does not go on with it: no digit, and no point with a digit if there
is no fraction yet. -/
structure EndsBefore (x : Lexeme) (rest : List Char) : Prop where
  digit : ∀ c ∈ rest.head?, c.isDigit = false
  fraction : x.fraction = [] → ∀ c, c.isDigit = true → ¬ ['.', c] <+: rest

end Lexeme

/-- A token and how it is written. -/
inductive Word where
  | identifier (name : String)
  | string (text : String)
  | number (x : Lexeme)
  | coercion (c : Coercion)
  | symbol (s : Symbol)

/-- Whether a text is an identifier. -/
def isIdentifier (name : String) : Bool :=
  match name.toList with
  | [] => false
  | c :: cs => Token.startsIdentifier c && cs.all Token.inIdentifier

theorem isIdentifier_eq_true {name : String} (h : isIdentifier name = true) :
    ∃ c cs, name.toList = c :: cs ∧ Token.startsIdentifier c = true ∧
      ∀ d ∈ cs, Token.inIdentifier d = true := by
  unfold isIdentifier at h
  split at h
  · cases h
  next c cs hn =>
    obtain ⟨hc, hcs⟩ := (Bool.and_eq_true _ _).mp h
    exact ⟨c, cs, hn, hc, List.all_eq_true.mp hcs⟩

/-- One of the two quotes is missing from a text, so that it can stand between these. -/
def Quotable (text : String) : Prop := '\'' ∉ text.toList ∨ '"' ∉ text.toList

namespace Word

/-- The quote around a text. -/
def quote (text : String) : Char := if '\'' ∈ text.toList then '"' else '\''

def chars : Word → List Char
  | .identifier name => name.toList
  | .string text => quote text :: (text.toList ++ [quote text])
  | .number x => x.chars
  | .coercion c => '<' :: (c.name.toList ++ ['>'])
  | .symbol s => s.spelling.toList

def token : Word → Token
  | .identifier name => .identifier name
  | .string text => .string text
  | .number x => .number x.value
  | .coercion c => .coercion c.name
  | .symbol s => .symbol s

/-- Whether a word is written as its token. -/
def Legible : Word → Prop
  | .identifier name => isIdentifier name = true
  | .string text => Quotable text
  | _ => True

/-- Words with a blank between them. -/
def spaced : List Word → List Char
  | [] => []
  | w :: ws => w.chars ++ ws.flatMap fun v => ' ' :: v.chars

def isNegative : Word → Bool
  | .number x => x.negative
  | _ => false

/-- Legible words, where a minus sign starts a number only if one is allowed there; whether one is
allowed in front of the first word is given. -/
def Readable : Bool → List Word → Prop
  | _, [] => True
  | signed, w :: ws =>
    w.Legible ∧ (w.isNegative = true → signed = true) ∧ Readable (!w.token.endsOperand) ws

end Word

/-! ## Readers on one word -/

namespace Token

variable {c : Char} {cs rest : List Char} {p : Char → Bool} {signed : Bool}

/-- A blank follows, or nothing does. -/
def Apart (rest : List Char) : Prop := ∀ c ∈ rest.head?, c = ' '

theorem Apart.head (h : Apart rest) (hp : p ' ' = false) : ∀ c ∈ rest.head?, p c = false := by
  intro c hc
  rw [h c hc]
  exact hp

theorem takeWhile_append_of_head (hc : ∀ c ∈ cs, p c = true)
    (hr : ∀ c ∈ rest.head?, p c = false) : (cs ++ rest).takeWhile p = cs := by
  rw [List.takeWhile_append_of_pos hc]
  cases rest with
  | nil => simp
  | cons c rest => simp [hr c rfl]

theorem dropWhile_append_of_head (hc : ∀ c ∈ cs, p c = true)
    (hr : ∀ c ∈ rest.head?, p c = false) : (cs ++ rest).dropWhile p = rest := by
  rw [List.dropWhile_append_of_pos hc]
  cases rest with
  | nil => rfl
  | cons c rest => simp [hr c rfl]

theorem readIdentifier?_append (hc : startsIdentifier c = true)
    (hcs : ∀ d ∈ cs, inIdentifier d = true) (hr : ∀ d ∈ rest.head?, inIdentifier d = false) :
    readIdentifier? (c :: (cs ++ rest)) = some (c :: cs, rest) := by
  simp only [readIdentifier?, if_pos hc]
  rw [takeWhile_append_of_head hcs hr, dropWhile_append_of_head hcs hr]

theorem readQuoted?_append {q : Char} (hq : q = '\'' ∨ q = '"') (hcs : q ∉ cs) :
    readQuoted? (q :: (cs ++ q :: rest)) = some (cs, rest) := by
  have hne : ∀ c ∈ cs, decide (c ≠ q) = true :=
    fun c h => decide_eq_true fun he => hcs (he ▸ h)
  have hr : ∀ c ∈ (q :: rest).head?, decide (c ≠ q) = false := by simp
  simp only [readQuoted?, if_pos hq]
  rw [dropWhile_append_of_head hne hr, takeWhile_append_of_head hne hr]

theorem readQuoted?_eq_none (h : c ≠ '\'' ∧ c ≠ '"') : readQuoted? (c :: cs) = none := by
  simp [readQuoted?, h.1, h.2]

theorem readUnsigned?_eq_none (hr : ∀ c ∈ rest.head?, c.isDigit = false) (negative : Bool) :
    readUnsigned? negative rest = none := by
  have ht : ([] ++ rest).takeWhile Char.isDigit = [] := takeWhile_append_of_head (by simp) hr
  rw [List.nil_append] at ht
  simp [readUnsigned?, ht]

theorem Apart.endsBefore (h : Apart rest) (x : Lexeme) : x.EndsBefore rest where
  digit := h.head rfl
  fraction _ c _ hprefix := by
    obtain ⟨more, rfl⟩ := hprefix
    cases h '.' rfl

theorem readUnsigned?_append {x : Lexeme} (h : x.EndsBefore rest) :
    readUnsigned? x.negative (x.unsigned ++ rest) = some (x.numeral, rest) := by
  have hw := x.whole_digits
  have hf := x.fraction_digits
  have hne : x.whole.isEmpty = false := by simpa using x.whole_ne_nil
  by_cases he : x.fraction = []
  · have hx : x.unsigned ++ rest = x.whole ++ rest := by simp [Lexeme.unsigned, he]
    rw [hx, readUnsigned?, takeWhile_append_of_head hw h.digit,
      dropWhile_append_of_head hw h.digit]
    simp only [hne, Bool.false_eq_true, if_false]
    split
    next after =>
      have hafter : after.takeWhile Char.isDigit = [] := by
        cases after with
        | nil => rfl
        | cons c more =>
          have hc : c.isDigit = false := by
            by_contra hd
            exact h.fraction he c (by simpa using hd) ⟨more, rfl⟩
          simp [hc]
      simp [hafter, Lexeme.numeral, he]
    next => simp [Lexeme.numeral, he]
  · have hx : x.unsigned ++ rest = x.whole ++ '.' :: (x.fraction ++ rest) := by
      simp [Lexeme.unsigned, he]
    have hdot : ∀ c ∈ ('.' :: (x.fraction ++ rest)).head?, c.isDigit = false := by simp
    rw [hx, readUnsigned?, takeWhile_append_of_head hw hdot, dropWhile_append_of_head hw hdot]
    simp only [hne, takeWhile_append_of_head hf h.digit, dropWhile_append_of_head hf h.digit]
    simp [he, Lexeme.numeral]

theorem digit_ne_minus (h : c.isDigit = true) : c ≠ '-' := by
  rintro rfl
  cases h

/-- The first character of a lexeme without its sign is a digit. -/
theorem unsigned_eq_cons (x : Lexeme) : ∃ c cs, x.unsigned = c :: cs ∧ c.isDigit = true := by
  obtain ⟨c, cs, hx⟩ := List.exists_cons_of_ne_nil x.whole_ne_nil
  refine ⟨c, _, by rw [Lexeme.unsigned, hx, List.cons_append], x.whole_digits c ?_⟩
  simp [hx]

theorem readNumber?_append {x : Lexeme} (hs : x.negative = true → signed = true)
    (h : x.EndsBefore rest) : readNumber? signed (x.chars ++ rest) = some (x.numeral, rest) := by
  have hu := readUnsigned?_append h
  cases hn : x.negative with
  | true =>
    rw [hn] at hu
    simp [Lexeme.chars, hn, readNumber?, hs hn, hu]
  | false =>
    obtain ⟨c, cs, hx, hd⟩ := unsigned_eq_cons x
    rw [hn] at hu
    rw [Lexeme.chars, if_neg (by simp [hn]), hx, List.cons_append, readNumber?]
    · rwa [hx] at hu
    · intro _ hc
      exact digit_ne_minus hd (List.cons.inj hc).1

theorem readNumber?_eq_none (hm : c ≠ '-') (hd : c.isDigit = false) :
    readNumber? signed (c :: cs) = none := by
  rw [readNumber?]
  · exact readUnsigned?_eq_none (by simpa using hd) false
  · intro _ hc
    exact hm (List.cons.inj hc).1

theorem readSymbol?_append (s : Symbol) (h : Apart rest) :
    readSymbol? (s.spelling.toList ++ rest) = some (s, rest) := by
  cases rest with
  | nil => cases s <;> rfl
  | cons c more =>
    obtain rfl := h c rfl
    cases s <;> rfl

theorem readCoercion?_eq_none (h : c ≠ '<') : readCoercion? (c :: cs) = none := by
  rw [readCoercion?]
  intro _ hc
  exact h (List.cons.inj hc).1

/-! An identifier starts with a character that starts nothing else. -/

theorem startsIdentifier_toNat (h : startsIdentifier c = true) :
    65 ≤ c.toNat ∧ c.toNat ≤ 90 ∨ 97 ≤ c.toNat ∧ c.toNat ≤ 122 ∨ c.toNat = 95 := by
  have upper : c.isUpper = true → 65 ≤ c.toNat ∧ c.toNat ≤ 90 := by
    intro hc
    obtain ⟨hf, hl⟩ := of_decide_eq_true hc
    exact ⟨UInt32.le_iff_toNat_le.mp hf, UInt32.le_iff_toNat_le.mp hl⟩
  have lower : c.isLower = true → 97 ≤ c.toNat ∧ c.toNat ≤ 122 := by
    intro hc
    obtain ⟨hf, hl⟩ := (Bool.and_eq_true _ _).mp hc
    exact ⟨UInt32.le_iff_toNat_le.mp (of_decide_eq_true hf),
      UInt32.le_iff_toNat_le.mp (of_decide_eq_true hl)⟩
  rcases (Bool.or_eq_true _ _).mp h with ha | hu
  · rcases (Bool.or_eq_true _ _).mp ha with hc | hc
    · exact .inl (upper hc)
    · exact .inr (.inl (lower hc))
  · obtain rfl : c = '_' := by simpa using hu
    exact .inr (.inr rfl)

theorem isDigit_toNat (h : c.isDigit = true) : 48 ≤ c.toNat ∧ c.toNat ≤ 57 :=
  Char.isDigit_iff_toNat.mp h

theorem startsIdentifier_not_digit (h : startsIdentifier c = true) : c.isDigit = false := by
  by_contra hd
  have := isDigit_toNat (by simpa using hd)
  have := startsIdentifier_toNat h
  omega

theorem startsIdentifier_ne {d : Char} (h : startsIdentifier c = true)
    (hd : startsIdentifier d = false) : c ≠ d := by
  rintro rfl
  rw [h] at hd
  cases hd

theorem readSymbol?_eq_none (h : startsIdentifier c = true) : readSymbol? (c :: cs) = none := by
  rw [readSymbol?, List.findSome?_eq_none_iff]
  intro s _
  obtain ⟨d, ds, hs, hd⟩ : ∃ d ds, s.spelling.toList = d :: ds ∧ startsIdentifier d = false := by
    cases s <;> exact ⟨_, _, rfl, by decide⟩
  simp [hs, List.isPrefixOf, (startsIdentifier_ne h hd).symm]

theorem isBlank_of_toNat (h : 33 ≤ c.toNat ∧ c.toNat ≤ 126) : Text.isBlank c = false := by
  simp only [Text.isBlank, Text.inIntervals, Text.blankIntervals, List.any_cons, List.any_nil,
    Bool.or_eq_false_iff, Bool.and_eq_false_iff, decide_eq_false_iff_not, and_true]
  refine ⟨?_, ?_, ?_, ?_, ?_, ?_, ?_, ?_, ?_, ?_⟩ <;> omega

/-! ## The first token of a text that starts with a word -/

theorem read?_symbol (s : Symbol) (h : Apart rest) :
    read? signed (s.spelling.toList ++ rest) = some (.symbol s, rest) := by
  have hq : readQuoted? (s.spelling.toList ++ rest) = none := by cases s <;> rfl
  have hn : readNumber? signed (s.spelling.toList ++ rest) = none := by
    cases s with
    | minus =>
      cases signed
      · rfl
      · exact readUnsigned?_eq_none (h.head rfl) true
    | _ => rfl
  have hc : readCoercion? (s.spelling.toList ++ rest) = none := by
    cases s with
    | less =>
      cases rest with
      | nil => rfl
      | cons c rest =>
        obtain rfl := h c rfl
        rfl
    | _ => rfl
  simp [read?, hq, hn, hc, readSymbol?_append s h]

theorem read?_identifier (hc : startsIdentifier c = true)
    (hcs : ∀ d ∈ cs, inIdentifier d = true) (hr : ∀ d ∈ rest.head?, inIdentifier d = false) :
    read? signed (c :: cs ++ rest) = some (.identifier (String.ofList (c :: cs)), rest) := by
  have hq : readQuoted? (c :: (cs ++ rest)) = none :=
    readQuoted?_eq_none ⟨startsIdentifier_ne hc rfl, startsIdentifier_ne hc rfl⟩
  have hn : readNumber? signed (c :: (cs ++ rest)) = none :=
    readNumber?_eq_none (startsIdentifier_ne hc rfl) (startsIdentifier_not_digit hc)
  have ho : readCoercion? (c :: (cs ++ rest)) = none :=
    readCoercion?_eq_none (startsIdentifier_ne hc rfl)
  simp [read?, hq, hn, ho, readSymbol?_eq_none hc, readIdentifier?_append hc hcs hr]

theorem read?_number (x : Lexeme) (hs : x.negative = true → signed = true) (h : Apart rest) :
    read? signed (x.chars ++ rest) = some (.number x.value, rest) := by
  have hq : readQuoted? (x.chars ++ rest) = none := by
    obtain ⟨c, cs, hx, hd⟩ := unsigned_eq_cons x
    rw [Lexeme.chars, hx]
    split
    · rfl
    · refine readQuoted?_eq_none ⟨?_, ?_⟩ <;> rintro rfl <;> cases hd
  simp [read?, hq, readNumber?_append hs (h.endsBefore x), Lexeme.value]

theorem read?_string {text : String} (ht : Quotable text) :
    read? signed ((Word.string text).chars ++ rest) = some (.string text, rest) := by
  have hq : Word.quote text = '\'' ∨ Word.quote text = '"' := by
    unfold Word.quote
    split <;> simp
  have hn : Word.quote text ∉ text.toList := by
    unfold Word.quote
    split
    next hs => exact ht.resolve_left (not_not_intro hs)
    next hs => exact hs
  have hr : readQuoted? (Word.quote text :: (text.toList ++ Word.quote text :: rest)) =
      some (text.toList, rest) := readQuoted?_append hq hn
  simp [read?, Word.chars, hr]

theorem readCoercion?_append (c : Coercion) :
    readCoercion? ('<' :: (c.name.toList ++ '>' :: rest)) = some (c.name.toList, rest) := by
  cases c <;> rfl

theorem read?_coercion (c : Coercion) :
    read? signed ((Word.coercion c).chars ++ rest) = some (.coercion c.name, rest) := by
  have hq : readQuoted? ('<' :: (c.name.toList ++ '>' :: rest)) = none := rfl
  have hn : readNumber? signed ('<' :: (c.name.toList ++ '>' :: rest)) = none := rfl
  simp [read?, Word.chars, hq, hn, readCoercion?_append]

theorem read?_word (w : Word) (hw : w.Legible) (hs : w.isNegative = true → signed = true)
    (h : Apart rest) : read? signed (w.chars ++ rest) = some (w.token, rest) := by
  cases w with
  | identifier name =>
    obtain ⟨c, cs, hn, hc, hcs⟩ := isIdentifier_eq_true hw
    have hr : read? signed (c :: cs ++ rest) =
        some (.identifier (String.ofList (c :: cs)), rest) := read?_identifier hc hcs (h.head rfl)
    rw [← hn, String.ofList_toList] at hr
    exact hr
  | string text => exact read?_string hw
  | number x => exact read?_number x hs h
  | coercion c => exact read?_coercion c
  | symbol s => exact read?_symbol s h

theorem word_not_blank (w : Word) (hw : w.Legible) :
    ∃ c cs, w.chars = c :: cs ∧ Text.isBlank c = false := by
  cases w with
  | identifier name =>
    obtain ⟨c, cs, hn, hc, _⟩ := isIdentifier_eq_true hw
    have := startsIdentifier_toNat hc
    exact ⟨c, cs, hn, isBlank_of_toNat (by omega)⟩
  | string text =>
    refine ⟨_, _, rfl, ?_⟩
    unfold Word.quote
    split <;> decide
  | number x =>
    obtain ⟨c, cs, hx, hd⟩ := unsigned_eq_cons x
    rw [Word.chars, Lexeme.chars, hx]
    split
    · exact ⟨_, _, rfl, by decide⟩
    · have := isDigit_toNat hd
      exact ⟨_, _, rfl, isBlank_of_toNat (by omega)⟩
  | coercion c => exact ⟨_, _, rfl, by decide⟩
  | symbol s => cases s <;> exact ⟨_, _, rfl, by decide⟩

/-! ## All tokens of a text -/

theorem trimStart_word (w : Word) (hw : w.Legible) (rest : List Char) :
    Text.trimStart (w.chars ++ rest) = w.chars ++ rest := by
  obtain ⟨c, cs, hc, hb⟩ := word_not_blank w hw
  simp [hc, Text.trimStart, hb]

theorem trimStart_blank (cs : List Char) : Text.trimStart (' ' :: cs) = Text.trimStart cs := by
  have : Text.isBlank ' ' = true := by decide
  simp [Text.trimStart, this]

theorem readAll_of_nil (h : Text.trimStart cs = []) : readAll signed cs = .ok [.finish] := by
  rw [readAll]
  split
  · rfl
  next hc =>
    rw [h] at hc
    cases hc

theorem readAll_of_read {t : Token} (h : Text.trimStart cs ≠ [])
    (hr : read? signed (Text.trimStart cs) = some (t, rest)) :
    readAll signed cs = (readAll (!t.endsOperand) rest).map (t :: ·) := by
  rw [readAll]
  split
  next hc => exact absurd hc h
  next hc =>
    rw [hc] at hr
    split
    next hn =>
      rw [hr] at hn
      cases hn
    next hs =>
      rw [hr] at hs
      cases hs
      rfl

theorem readAll_word {w : Word} (hw : w.Legible) (hs : w.isNegative = true → signed = true)
    (h : Apart rest) (hcs : Text.trimStart cs = w.chars ++ rest) :
    readAll signed cs = (readAll (!w.token.endsOperand) rest).map (w.token :: ·) := by
  refine readAll_of_read ?_ ?_
  · obtain ⟨c, cs, hc, _⟩ := word_not_blank w hw
    simp [hcs, hc]
  · rw [hcs]
    exact read?_word w hw hs h

theorem apart_words (ws : List Word) : Apart (ws.flatMap fun w => ' ' :: w.chars) := by
  cases ws <;> simp [Apart]

theorem readAll_words (ws : List Word) (signed : Bool) (h : Word.Readable signed ws) :
    readAll signed (ws.flatMap fun w => ' ' :: w.chars) =
      .ok (ws.map Word.token ++ [.finish]) := by
  induction ws generalizing signed with
  | nil => exact readAll_of_nil rfl
  | cons w ws ih =>
    obtain ⟨hw, hn, h⟩ := h
    have ht : Text.trimStart ((w :: ws).flatMap fun w => ' ' :: w.chars) =
        w.chars ++ ws.flatMap fun w => ' ' :: w.chars := by
      rw [List.flatMap_cons, List.cons_append, trimStart_blank, trimStart_word w hw]
    rw [readAll_word hw hn (apart_words ws) ht, ih _ h]
    rfl

/-- Words with a blank between them are read as their tokens. -/
theorem readAll_spaced (ws : List Word) (h : Word.Readable true ws) :
    readAll true (Word.spaced ws) = .ok (ws.map Word.token ++ [.finish]) := by
  cases ws with
  | nil => exact readAll_of_nil rfl
  | cons w ws =>
    obtain ⟨hw, hn, h⟩ := h
    rw [Word.spaced, readAll_word hw hn (apart_words ws) (trimStart_word w hw _),
      readAll_words ws _ h]
    rfl

end Token
end PathQuery
