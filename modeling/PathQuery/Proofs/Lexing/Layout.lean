import PathQuery.Proofs.Lexing.Rules

/-! Tokens and where they stand in a path text.
A path text consists of lexemes, one for each token, with gaps of blanks around them. More blanks in
the gaps do not change the tokens. -/
namespace PathQuery.Token

open Text (Widens)

/-- Gaps and lexemes in turn, of which there is one gap more. -/
def alternate : List (List Char) → List (List Char) → List Char
  | gap :: gaps, lexeme :: lexemes => gap ++ (lexeme ++ alternate gaps lexemes)
  | [gap], [] => gap
  | _, _ => []

/-- A text made up of lexemes that spell tokens and of gaps with nothing but blanks. -/
structure IsLayout (gaps lexemes : List (List Char)) (tokens : List Token) (text : List Char) :
    Prop where
  count : gaps.length = lexemes.length + 1
  blank : ∀ gap ∈ gaps, ∀ c ∈ gap, Text.isBlank c = true
  spells : List.Forall₂ Spells lexemes tokens
  text_eq : text = alternate gaps lexemes

variable {gaps wider lexemes : List (List Char)} {tokens ts : List Token} {lexeme gap : List Char}
  {cs rest : List Char} {t : Token} {signed : Bool}

theorem alternate_widens (h : List.Forall₂ Widens gaps wider) (lexemes : List (List Char)) :
    Widens (alternate gaps lexemes) (alternate wider lexemes) := by
  induction h generalizing lexemes with
  | nil => cases lexemes <;> exact .nil
  | cons hgap hgaps ih =>
    cases lexemes with
    | nil =>
      cases hgaps with
      | nil => exact hgap
      | cons => exact .nil
    | cons lexeme lexemes => exact hgap.append ((ih lexemes).append_left lexeme)

namespace IsLayout

theorem last (hgap : ∀ c ∈ gap, Text.isBlank c = true) : IsLayout [gap] [] [] gap where
  count := rfl
  blank := by simpa using hgap
  spells := .nil
  text_eq := rfl

theorem cons (h : IsLayout gaps lexemes tokens rest) (hgap : ∀ c ∈ gap, Text.isBlank c = true)
    (hs : Spells lexeme t) :
    IsLayout (gap :: gaps) (lexeme :: lexemes) (t :: tokens) (gap ++ (lexeme ++ rest)) where
  count := by simp [h.count]
  blank := List.forall_mem_cons.mpr ⟨hgap, h.blank⟩
  spells := .cons hs h.spells
  text_eq := by rw [alternate, ← h.text_eq]

end IsLayout

/-! ## Lexemes -/

theorem Spells.head (h : Spells lexeme t) : ∃ c cs, lexeme = c :: cs ∧ Text.isBlank c = false := by
  cases h with
  | identifier h =>
    obtain ⟨c, cs, hname, hc, _⟩ := isIdentifier_eq_true h
    exact ⟨c, cs, hname, isBlank_of_startsIdentifier hc⟩
  | string hq _ => exact ⟨_, _, rfl, by rcases hq with rfl | rfl <;> decide⟩
  | number x =>
    obtain ⟨_, _, hx, _⟩ := unsigned_eq_cons x
    have hne : x.chars ≠ [] := by
      rw [Lexeme.chars, hx]
      split <;> exact List.cons_ne_nil _ _
    obtain ⟨c, cs, hchars⟩ := List.exists_cons_of_ne_nil hne
    exact ⟨c, cs, hchars, isBlank_of_mem_chars x c (by simp [hchars])⟩
  | coercion => exact ⟨_, _, rfl, by decide⟩
  | symbol s => cases s <;> exact ⟨_, _, rfl, by decide⟩

theorem Spells.ne_nil (h : Spells lexeme t) : lexeme ≠ [] := by
  obtain ⟨_, _, rfl, _⟩ := h.head
  exact List.cons_ne_nil _ _

theorem Spells.ne_finish (h : Spells lexeme t) : t ≠ .finish := by
  rintro rfl
  cases h

theorem ne_nil_of_spells (h : List.Forall₂ Spells lexemes tokens) :
    ∀ lexeme ∈ lexemes, lexeme ≠ [] := by
  induction h with
  | nil => simp
  | cons hs _ ih => exact List.forall_mem_cons.mpr ⟨hs.ne_nil, ih⟩

theorem finish_notMem_of_spells (h : List.Forall₂ Spells lexemes tokens) : .finish ∉ tokens := by
  induction h with
  | nil => exact List.not_mem_nil
  | cons hs _ ih => exact List.not_mem_cons_of_ne_of_not_mem hs.ne_finish.symm ih

/-! ## All tokens of a text -/

theorem trimStart_append (hgap : ∀ c ∈ gap, Text.isBlank c = true) (h : Spells lexeme t) :
    Text.trimStart (gap ++ (lexeme ++ rest)) = lexeme ++ rest := by
  obtain ⟨c, cs, rfl, hc⟩ := h.head
  exact dropWhile_append_of_head hgap (by simpa using hc)

theorem readAll_blank (h : ∀ c ∈ gap, Text.isBlank c = true) :
    readAll signed gap = .ok [.finish] :=
  readAll_of_nil (List.dropWhile_eq_nil_iff.mpr h)

theorem readAll_append (hgap : ∀ c ∈ gap, Text.isBlank c = true) (h : Spells lexeme t)
    (hread : read? signed (lexeme ++ rest) = some (t, rest)) :
    readAll signed (gap ++ (lexeme ++ rest)) = (readAll (!t.endsOperand) rest).map (t :: ·) := by
  have htrim : Text.trimStart (gap ++ (lexeme ++ rest)) = lexeme ++ rest :=
    trimStart_append hgap h
  refine readAll_of_read ?_ ?_
  · rw [htrim]
    exact List.append_ne_nil_of_left_ne_nil h.ne_nil _
  · rw [htrim, hread]

/-- A token at the start of a text, without a gap. -/
theorem readAll_adjacent (h : Spells lexeme t)
    (hread : read? signed (lexeme ++ rest) = some (t, rest)) :
    readAll signed (lexeme ++ rest) = (readAll (!t.endsOperand) rest).map (t :: ·) := by
  have hgap : ∀ c ∈ ([] : List Char), Text.isBlank c = true := by simp
  exact readAll_append hgap h hread

theorem exists_gap (h : Text.trimStart cs = rest) :
    ∃ gap, (∀ c ∈ gap, Text.isBlank c = true) ∧ cs = gap ++ rest :=
  ⟨cs.takeWhile Text.isBlank, List.all_eq_true.mp List.all_takeWhile,
    h ▸ List.takeWhile_append_dropWhile.symm⟩

theorem exists_layout_readAll (h : readAll signed cs = .ok ts) :
    ∃ tokens gaps lexemes, ts = tokens ++ [.finish] ∧ IsLayout gaps lexemes tokens cs ∧
      ∀ wider, List.Forall₂ Widens gaps wider →
        readAll signed (alternate wider lexemes) = .ok ts := by
  -- along the lexer's own recursion: the blanks that it trims are the next gap
  fun_induction readAll signed cs generalizing ts with
  | case1 signed cs hcs =>
    cases h
    have hblank : ∀ c ∈ cs, Text.isBlank c = true := List.dropWhile_eq_nil_iff.mp hcs
    refine ⟨[], [cs], [], rfl, .last hblank, fun wider hw => ?_⟩
    cases hw with
    | cons hgap hnil =>
      cases hnil
      exact readAll_blank (hgap.all_blank hblank)
  | case2 signed cs c after hcs hn => cases h
  | case3 signed cs c after hcs t rest hr ih =>
    cases hts : readAll (!t.endsOperand) rest with
    | error e =>
      rw [hts] at h
      cases h
    | ok ts' =>
      rw [hts] at h
      cases h
      obtain ⟨tokens, gaps, lexemes, rfl, hlayout, hwiden⟩ := ih hts
      obtain ⟨lexeme, hlexeme, hspells, hwider⟩ := (steady_read signed).reads hr
      obtain ⟨gap, hgap, rfl⟩ := exists_gap (hcs.trans hlexeme)
      refine ⟨t :: tokens, gap :: gaps, lexeme :: lexemes, rfl, hlayout.cons hgap hspells,
        fun wider hw => ?_⟩
      cases hw with
      | cons hfirst hothers =>
        have hrest := hlayout.text_eq ▸ alternate_widens hothers lexemes
        rw [alternate, readAll_append (hfirst.all_blank hgap) hspells (hwider _ hrest),
          hwiden _ hothers]
        rfl

/-- A path text that has tokens is made up of a lexeme for each of them but the last, with blanks
around the lexemes, and with more blanks around them it has the same tokens. -/
theorem exists_layout {path : String} (h : ofText path = .ok ts) :
    ∃ tokens gaps lexemes, ts = tokens ++ [.finish] ∧ .finish ∉ tokens ∧
      IsLayout gaps lexemes tokens path.toList ∧ (∀ lexeme ∈ lexemes, lexeme ≠ []) ∧
      ∀ wider, List.Forall₂ Widens gaps wider →
        ofText (String.ofList (alternate wider lexemes)) = .ok ts := by
  obtain ⟨tokens, gaps, lexemes, hts, hlayout, hwiden⟩ := exists_layout_readAll h
  refine ⟨tokens, gaps, lexemes, hts, finish_notMem_of_spells hlayout.spells, hlayout,
    ne_nil_of_spells hlayout.spells, fun wider hw => ?_⟩
  rw [ofText, String.toList_ofList, hwiden wider hw]

/-- A path with `..`, `<b>`, `-1` and `!==`, which no blank may part. -/
theorem exists_layout_sample :
    ofText " $..a<b>[-1] !== <c" = .ok ([.symbol .root, .symbol .recurse, .identifier "a",
        .coercion "b", .symbol .bracketOpen, .number (Numeral.toDouble ⟨true, ['1'], [], 0⟩),
        .symbol .bracketClose, .symbol .strictNotEqual, .symbol .less, .identifier "c"] ++
          [.finish]) ∧
      ∃ tokens gaps lexemes, IsLayout gaps lexemes tokens " $..a<b>[-1] !== <c".toList ∧
        ∀ wider, List.Forall₂ Widens gaps wider →
          ofText (String.ofList (alternate wider lexemes)) = .ok (tokens ++ [.finish]) := by
  have h : ofText " $..a<b>[-1] !== <c" = .ok ([.symbol .root, .symbol .recurse, .identifier "a",
      .coercion "b", .symbol .bracketOpen, .number (Numeral.toDouble ⟨true, ['1'], [], 0⟩),
      .symbol .bracketClose, .symbol .strictNotEqual, .symbol .less, .identifier "c"] ++
        [.finish]) := by decide +kernel
  obtain ⟨tokens, gaps, lexemes, hts, _, hlayout, _, hwiden⟩ := exists_layout h
  rw [hts] at hwiden
  exact ⟨h, tokens, gaps, lexemes, hlayout, hwiden⟩

end PathQuery.Token
