import PathQuery.Proofs.Lexing.Appending

/-! Two path texts with blanks between them.
Of the tokens of the first text, the second one sees no more than whether a number may have a sign
behind them. So the whole text has the tokens of one and then those of the other, unless the second
one starts with a minus sign that subtracts from an operand at the end of the first. -/
namespace PathQuery.Token

variable {signed signed' : Bool} {cs : List Char} {ts : List Token}

/-! ## The sign of a number -/

/-- Whether a number may have a sign behind some tokens is up to the last of them. -/
theorem signAfter_append_singleton (signed : Bool) (ts : List Token) (t : Token) :
    signAfter signed (ts ++ [t]) = !t.endsOperand := by
  induction ts generalizing signed with
  | nil => rfl
  | cons u ts ih => exact ih _

theorem signAfter_of_getLast {t : Token} (h : ts.getLast? = some t)
    (ht : t.endsOperand = false) : signAfter signed ts = true := by
  obtain ⟨ts, rfl⟩ := List.getLast?_eq_some_iff.mp h
  rw [signAfter_append_singleton, ht]
  rfl

theorem readNumber?_of_head (h : cs.head? ≠ some '-') :
    readNumber? signed cs = readUnsigned? false cs := by
  unfold readNumber?
  split
  next => exact absurd rfl h
  next => rfl

/-- Where no minus sign stands it does not matter whether a number may have one. -/
theorem readAll_of_head (h : (Text.trimStart cs).head? ≠ some '-') :
    readAll signed cs = readAll signed' cs := by
  refine readAll_congr rfl ?_
  simp only [read?, readNumber?_of_head h]

/-! ## The whole text -/

/-- Blanks behind a path text that has tokens keep them apart from those of any text after the blanks:
the whole has both in a row, or the error of the second text. This needs that no operand ends with the
last token of the first text or that the second one does not start with a minus sign. -/
theorem ofText_append {front gap back : String} (hfront : ofText front = .ok (ts ++ [.finish]))
    (hne : gap ≠ "") (hgap : ∀ c ∈ gap.toList, Text.isBlank c = true)
    (hsign : ts = [] ∨ (∃ t, ts.getLast? = some t ∧ t.endsOperand = false) ∨
      (Text.trimStart back.toList).head? ≠ some '-') :
    ofText (front ++ gap ++ back) = (ofText back).map (ts ++ ·) := by
  have hdivided : Divided (gap.toList ++ back.toList) := by
    obtain ⟨b, bs, hb⟩ := List.exists_cons_of_ne_nil (String.toList_eq_nil_iff.not.mpr hne)
    have hblank : Text.isBlank b = true := hgap b (by simp [hb])
    simp [hb, Divided, divides, hblank]
  have hback : readAll (signAfter true ts) back.toList = readAll true back.toList := by
    rcases hsign with rfl | ⟨t, hlast, ht⟩ | hhead
    · rfl
    · rw [signAfter_of_getLast hlast ht]
    · exact readAll_of_head hhead
  calc ofText (front ++ gap ++ back)
      = readAll true (front.toList ++ (gap.toList ++ back.toList)) := by simp [ofText]
    _ = (readAll (signAfter true ts) (gap.toList ++ back.toList)).map (ts ++ ·) :=
        readAll_divided hdivided hfront
    _ = (ofText back).map (ts ++ ·) := by rw [readAll_blank_append hgap, hback, ofText]

/-- Behind an operand a minus sign subtracts, blanks or not. -/
example : ofText "1 -2" = .ok [.number (Numeral.toDouble ⟨false, ['1'], [], 0⟩), .symbol .minus,
    .number (Numeral.toDouble ⟨false, ['2'], [], 0⟩), .finish] := by decide +kernel

/-- A negative number and a text that is no path behind a comparison. -/
theorem ofText_append_sample :
    let ts : List Token := [.symbol .current, .symbol .dot, .identifier "a", .symbol .less]
    let number : Token := .number (Numeral.toDouble ⟨true, ['2'], [], 0⟩)
    ofText "@.a <" = .ok (ts ++ [.finish]) ∧ (∀ c ∈ "\t ".toList, Text.isBlank c = true) ∧
    (∃ t, ts.getLast? = some t ∧ t.endsOperand = false) ∧
    ofText ("@.a <" ++ "\t " ++ "-2") = .ok (ts ++ [number, .finish]) ∧
    ofText ("@.a <" ++ "\t " ++ "b>#") = .error (.noToken '#') := by
  intro ts number
  have hfront : ofText "@.a <" = .ok (ts ++ [.finish]) := by decide +kernel
  have hgap : ∀ c ∈ "\t ".toList, Text.isBlank c = true := List.all_eq_true.mp rfl
  have hlast : ∃ t, ts.getLast? = some t ∧ t.endsOperand = false := ⟨_, rfl, rfl⟩
  have hnumber : ofText "-2" = .ok [number, .finish] := by decide +kernel
  have herror : ofText "b>#" = .error (.noToken '#') := by decide +kernel
  refine ⟨hfront, hgap, hlast, ?_, ?_⟩
  · rw [ofText_append hfront (by decide) hgap (.inr (.inl hlast)), hnumber]
    rfl
  · rw [ofText_append hfront (by decide) hgap (.inr (.inl hlast)), herror]
    rfl

end PathQuery.Token
