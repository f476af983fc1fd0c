import PathQuery.Proofs.Lexing.Readers
import PathQuery.Proofs.Lexing.Widening

/-! The lexer's rules in texts with more blanks.
Each rule looks at most a few characters behind what it reads, and only for characters other than
blanks. So a rule that succeeds reads the same when blanks are put in behind, and a rule that fails
does so when blanks are put in anywhere. Trying rules in turn keeps both. -/
namespace PathQuery.Token

open Text (Widens)

/-- How a token may be spelled. -/
inductive Spells : List Char → Token → Prop
  | identifier {name : String} (h : isIdentifier name = true) :
    Spells name.toList (.identifier name)
  | string {q : Char} {text : String} (hq : q = '\'' ∨ q = '"') (ht : q ∉ text.toList) :
    Spells (q :: (text.toList ++ [q])) (.string text)
  | number (x : Lexeme) : Spells x.chars (.number x.value)
  | coercion {name : String} (h : isIdentifier name = true) :
    Spells ('<' :: (name.toList ++ ['>'])) (.coercion name)
  | symbol (s : Symbol) : Spells s.spelling.toList (.symbol s)

/-- A rule that reads a spelling from the start of a text whatever blanks are put in behind it, and
that reads nothing from a text with more blanks unless it reads something from the text itself. -/
structure Steady {α : Type} (spells : List Char → α → Prop)
    (rule : List Char → Option (α × List Char)) : Prop where
  reads : ∀ {cs a rest}, rule cs = some (a, rest) → ∃ lexeme, cs = lexeme ++ rest ∧
    spells lexeme a ∧ ∀ wider, Widens rest wider → rule (lexeme ++ wider) = some (a, wider)
  narrows : ∀ {cs wider a rest}, rule wider = some (a, rest) → Widens cs wider → rule cs ≠ none

namespace Steady

variable {α β : Type} {rule rule' : List Char → Option (α × List Char)} {cs wider : List Char}

theorem fails {spells : List Char → α → Prop} (h : Steady spells rule) (hn : rule cs = none)
    (hw : Widens cs wider) : rule wider = none :=
  Option.eq_none_iff_forall_ne_some.mpr fun _ hr => h.narrows hr hw hn

theorem or {spells : List Char → α → Prop} (h : Steady spells rule) (h' : Steady spells rule') :
    Steady spells fun cs => (rule cs).or (rule' cs) where
  reads hr := by
    rcases Option.or_eq_some_iff.mp hr with hr | ⟨hn, hr⟩
    · obtain ⟨lexeme, hcs, hs, hw⟩ := h.reads hr
      exact ⟨lexeme, hcs, hs, fun wider hwider => by rw [hw wider hwider, Option.some_or]⟩
    · -- the first rule, which failed on the text, must not read anything from the wider one
      obtain ⟨lexeme, rfl, hs, hw⟩ := h'.reads hr
      refine ⟨lexeme, rfl, hs, fun wider hwider => ?_⟩
      rw [h.fails hn (hwider.append_left lexeme), Option.none_or, hw wider hwider]
  narrows hr hw hn := by
    obtain ⟨hn, hn'⟩ := Option.or_eq_none_iff.mp hn
    rw [h.fails hn hw, h'.fails hn' hw] at hr
    cases hr

theorem map {spells : List Char → β → Prop} {f : α → β}
    (h : Steady (fun lexeme a => spells lexeme (f a)) rule) :
    Steady spells fun cs => (rule cs).map fun r => (f r.1, r.2) where
  reads hr := by
    obtain ⟨⟨a, rest⟩, hread, he⟩ := Option.map_eq_some_iff.mp hr
    cases he
    obtain ⟨lexeme, hcs, hs, hw⟩ := h.reads hread
    exact ⟨lexeme, hcs, hs, fun wider hwider => by rw [hw wider hwider, Option.map_some]⟩
  narrows hr hw hn := by
    obtain ⟨_, hread, _⟩ := Option.map_eq_some_iff.mp hr
    exact h.narrows hread hw (Option.map_eq_none_iff.mp hn)

end Steady

variable {rest wider : List Char} {x : Lexeme}

theorem steady_readQuoted :
    Steady (fun lexeme text => Spells lexeme (.string (String.ofList text))) readQuoted? where
  reads {cs text rest} h := by
    obtain ⟨q, hq, ht, rfl⟩ := readQuoted?_eq_some h
    refine ⟨q :: (text ++ [q]), by simp, ?_, fun wider _ => ?_⟩
    · have ht' : q ∉ (String.ofList text).toList := by simpa using ht
      simpa using Spells.string hq ht'
    · simpa using readQuoted?_append hq ht
  narrows h hw := by
    obtain ⟨q, hq, _, rfl⟩ := readQuoted?_eq_some h
    have hblank : Text.isBlank q = false := by rcases hq with rfl | rfl <;> decide
    obtain ⟨_, rfl, hinner⟩ := hw.of_cons hblank
    exact readQuoted?_ne_none hq (hinner.mem (by simp) hblank)

theorem endsBefore_widen (h : x.EndsBefore rest) (hw : Widens rest wider) :
    x.EndsBefore wider where
  digit := hw.head_eq_false (fun _ => isBlank_of_isDigit) h.digit
  fraction hx c hc hprefix := by
    refine h.fraction hx c hc (hw.isPrefix hprefix ?_)
    have hpoint : Text.isBlank '.' = false := by decide
    simp [isBlank_of_isDigit hc, hpoint]

theorem steady_readNumber (signed : Bool) :
    Steady (fun lexeme n => Spells lexeme (.number n.toDouble)) (readNumber? signed) where
  reads h := by
    obtain ⟨x, hs, rfl, rfl, hends⟩ := readNumber?_eq_some h
    exact ⟨x.chars, rfl, .number x, fun wider hw => readNumber?_append hs (endsBefore_widen hends hw)⟩
  narrows h hw := by
    obtain ⟨x, hs, _, rfl, _⟩ := readNumber?_eq_some h
    obtain ⟨rest, rfl⟩ := hw.isPrefix (List.prefix_append _ _) (isBlank_of_mem_chars x)
    exact readNumber?_ne_none hs

theorem steady_readCoercion :
    Steady (fun lexeme name => Spells lexeme (.coercion (String.ofList name))) readCoercion? where
  reads {cs name rest} h := by
    obtain ⟨hname, rfl⟩ := readCoercion?_eq_some h
    refine ⟨'<' :: (name ++ ['>']), by simp, by simpa using Spells.coercion hname, fun wider _ => ?_⟩
    simpa using readCoercion?_of_isIdentifier hname
  narrows {cs wider name rest} h hw := by
    obtain ⟨hname, rfl⟩ := readCoercion?_eq_some h
    have hblank : ∀ c ∈ '<' :: (name ++ ['>']), Text.isBlank c = false := by
      have hopen : Text.isBlank '<' = false := by decide
      have hclose : Text.isBlank '>' = false := by decide
      simpa [hopen, hclose, or_imp, forall_and] using isBlank_of_mem_identifier hname
    obtain ⟨more, rfl⟩ := hw.isPrefix ⟨rest, by simp⟩ hblank
    simp [readCoercion?_of_isIdentifier hname]

theorem steady_readSymbol : Steady (fun lexeme s => Spells lexeme (.symbol s)) readSymbol? where
  reads {cs s rest} h := by
    obtain ⟨before, after, hall, rfl, hbefore⟩ := readSymbol?_eq_some_iff.mp h
    refine ⟨_, rfl, .symbol s, fun wider hw => ?_⟩
    refine readSymbol?_eq_some_iff.mpr ⟨before, after, hall, rfl, fun s' hs' hprefix => ?_⟩
    exact hbefore s' hs' ((hw.append_left _).isPrefix hprefix (isBlank_of_mem_spelling s'))
  narrows {cs wider s rest} h hw hn := by
    obtain ⟨_, _, _, rfl, _⟩ := readSymbol?_eq_some_iff.mp h
    exact readSymbol?_eq_none_iff.mp hn s
      (hw.isPrefix (List.prefix_append _ _) (isBlank_of_mem_spelling s))

theorem steady_readIdentifier :
    Steady (fun lexeme name => Spells lexeme (.identifier (String.ofList name)))
      readIdentifier? where
  reads {cs name rest} h := by
    obtain ⟨hname, rfl, hrest⟩ := readIdentifier?_eq_some h
    refine ⟨name, rfl, by simpa using Spells.identifier hname, fun wider hw => ?_⟩
    exact readIdentifier?_of_isIdentifier hname
      (hw.head_eq_false (fun _ => isBlank_of_inIdentifier) hrest)
  narrows h hw := by
    obtain ⟨hname, rfl, _⟩ := readIdentifier?_eq_some h
    obtain ⟨c, cs, rfl, hc, _⟩ := isIdentifier_ofList hname
    obtain ⟨cs, rfl, _⟩ := hw.of_cons (isBlank_of_startsIdentifier hc)
    simp [readIdentifier?, hc]

theorem steady_read (signed : Bool) : Steady Spells (read? signed) := by
  have h := steady_readQuoted.map.or ((steady_readNumber signed).map.or
    (steady_readCoercion.map.or (steady_readSymbol.map.or steady_readIdentifier.map)))
  have heq : read? signed = _ := funext fun cs => by
    simp only [read?, Option.orElse_eq_orElse, Option.orElse_eq_or]
    rfl
  rw [heq]
  exact h

end PathQuery.Token
