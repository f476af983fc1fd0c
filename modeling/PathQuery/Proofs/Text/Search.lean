import Mathlib.Order.Bounds.Basic
import PathQuery.Text.Search

/-! Where one text occurs in another.
The search finds the least offset at which there is an occurrence. To search in the UTF-8 encodings and
to count the characters before the place found comes to the same: no character has an encoding that
starts another one, and no byte that starts an encoding stands further inside of one, so that an encoded
text occurs only where the text itself does. -/
namespace PathQuery.Text

/-- Whether `needle` occurs in a text behind its first `k` entries. -/
def OccursAt {α : Type} (needle text : List α) (k : Nat) : Prop :=
  ∃ before after, text = before ++ (needle ++ after) ∧ before.length = k

/-! ## Occurrences -/

section
variable {α : Type} {needle text : List α} {c : α} {k : Nat}

theorem occursAt_nil_iff : OccursAt needle [] k ↔ needle = [] ∧ k = 0 := by
  constructor
  · rintro ⟨before, after, htext, rfl⟩
    obtain ⟨hbefore, hrest⟩ := List.append_eq_nil_iff.mp htext.symm
    exact ⟨(List.append_eq_nil_iff.mp hrest).1, hbefore ▸ rfl⟩
  · rintro ⟨rfl, rfl⟩
    exact ⟨[], [], rfl, rfl⟩

theorem occursAt_zero_iff : OccursAt needle text 0 ↔ needle <+: text := by
  constructor
  · rintro ⟨before, after, htext, hlength⟩
    rw [List.eq_nil_of_length_eq_zero hlength, List.nil_append] at htext
    exact ⟨after, htext.symm⟩
  · rintro ⟨after, htext⟩
    exact ⟨[], after, htext.symm, rfl⟩

theorem occursAt_cons_succ_iff : OccursAt needle (c :: text) (k + 1) ↔ OccursAt needle text k := by
  constructor
  · rintro ⟨before, after, htext, hlength⟩
    cases before with
    | nil => cases hlength
    | cons d before =>
      rw [List.cons_append] at htext
      exact ⟨before, after, (List.cons.inj htext).2, Nat.succ.inj hlength⟩
  · rintro ⟨before, after, htext, hlength⟩
    exact ⟨c :: before, after, by rw [htext, List.cons_append], congrArg Nat.succ hlength⟩

/-- An occurrence that is not at the start is one behind the first entry. -/
theorem exists_occursAt_of_cons (hstart : ¬ needle <+: c :: text)
    (h : OccursAt needle (c :: text) k) : ∃ j, k = j + 1 ∧ OccursAt needle text j := by
  cases k with
  | zero => exact absurd (occursAt_zero_iff.mp h) hstart
  | succ j => exact ⟨j, rfl, occursAt_cons_succ_iff.mp h⟩

/-- What stands at the end of a text occurs as far behind its start as its length allows. -/
theorem suffix_iff_occursAt :
    needle <:+ text ↔ OccursAt needle text (text.length - needle.length) := by
  constructor
  · rintro ⟨before, rfl⟩
    refine ⟨before, [], by rw [List.append_nil], ?_⟩
    rw [List.length_append, Nat.add_sub_cancel]
  · rintro ⟨before, after, rfl, hlength⟩
    simp only [List.length_append] at hlength
    have hafter : after = [] := List.eq_nil_of_length_eq_zero (by omega)
    exact ⟨before, by rw [hafter, List.append_nil]⟩

end

/-! ## The search -/

/-- The search gives the first occurrence, and nothing only if there is none. -/
theorem offset?_cases (needle text : List Char) :
    (∃ k, offset? needle text = some k ∧ IsLeast {j | OccursAt needle text j} k) ∨
      offset? needle text = none ∧ {j | OccursAt needle text j} = ∅ := by
  induction text with
  | nil =>
    by_cases hneedle : needle = []
    · subst hneedle
      exact .inl ⟨0, rfl, occursAt_nil_iff.mpr ⟨rfl, rfl⟩, fun j _ => Nat.zero_le j⟩
    · refine .inr ⟨by simp [offset?, hneedle], Set.eq_empty_iff_forall_notMem.mpr fun j hj => ?_⟩
      exact hneedle (occursAt_nil_iff.mp hj).1
  | cons c cs ih =>
    by_cases hstart : needle <+: c :: cs
    · have hzero : offset? needle (c :: cs) = some 0 := by
        rw [offset?, if_pos (List.isPrefixOf_iff_prefix.mpr hstart)]
      exact .inl ⟨0, hzero, occursAt_zero_iff.mpr hstart, fun j _ => Nat.zero_le j⟩
    · have hnext : offset? needle (c :: cs) = (offset? needle cs).map (· + 1) := by
        rw [offset?, if_neg (mt List.isPrefixOf_iff_prefix.mp hstart)]
      rcases ih with ⟨k, hk, hleast⟩ | ⟨hnone, hempty⟩
      · refine .inl ⟨k + 1, by rw [hnext, hk, Option.map_some],
          occursAt_cons_succ_iff.mpr hleast.1, fun j hj => ?_⟩
        obtain ⟨i, rfl, hi⟩ := exists_occursAt_of_cons hstart hj
        exact Nat.succ_le_succ (hleast.2 hi)
      · refine .inr ⟨by rw [hnext, hnone, Option.map_none],
          Set.eq_empty_iff_forall_notMem.mpr fun j hj => ?_⟩
        obtain ⟨i, -, hi⟩ := exists_occursAt_of_cons hstart hj
        exact Set.eq_empty_iff_forall_notMem.mp hempty i hi

/-! ## Encoded texts -/

/-- The UTF-8 encoding of a text. -/
def utf8 (text : List Char) : List UInt8 := text.flatMap String.utf8EncodeChar

variable {needle text : List Char} {c d : Char} {k b : Nat}

theorem utf8_cons (c : Char) (text : List Char) :
    utf8 (c :: text) = String.utf8EncodeChar c ++ utf8 text := List.flatMap_cons

theorem utf8_append (text more : List Char) : utf8 (text ++ more) = utf8 text ++ utf8 more :=
  List.flatMap_append

/-- The first character of an encoding can be told from the bytes alone. -/
theorem utf8EncodeChar_append_inj {bs cs : List UInt8}
    (h : String.utf8EncodeChar c ++ bs = String.utf8EncodeChar d ++ cs) : c = d ∧ bs = cs := by
  have hc := ByteArray.utf8DecodeChar?_utf8EncodeChar_append (b := bs.toByteArray) (c := c)
  have hd := ByteArray.utf8DecodeChar?_utf8EncodeChar_append (b := cs.toByteArray) (c := d)
  rw [← List.toByteArray_append, h, List.toByteArray_append, hd] at hc
  obtain rfl : d = c := Option.some.inj hc
  exact ⟨rfl, List.append_cancel_left h⟩

theorem utf8_eq_nil_iff : utf8 text = [] ↔ text = [] := by
  cases text with
  | nil => exact iff_of_true rfl rfl
  | cons c cs => simp [utf8_cons]

theorem isPrefix_of_utf8 (h : utf8 needle <+: utf8 text) : needle <+: text := by
  induction needle generalizing text with
  | nil => exact List.nil_prefix
  | cons d ds ih =>
    obtain ⟨after, hafter⟩ := h
    rw [utf8_cons, List.append_assoc] at hafter
    cases text with
    | nil => simp [utf8] at hafter
    | cons c cs =>
      rw [utf8_cons] at hafter
      obtain ⟨rfl, hrest⟩ := utf8EncodeChar_append_inj hafter
      exact List.cons_prefix_cons.mpr ⟨rfl, ih ⟨after, hrest⟩⟩

theorem exists_utf8_eq_cons (h : needle ≠ []) :
    ∃ x xs, utf8 needle = x :: xs ∧ x.IsUTF8FirstByte := by
  cases needle with
  | nil => exact absurd rfl h
  | cons d ds =>
    have hfirst := UInt8.isUTF8FirstByte_getElem_zero_utf8EncodeChar (c := d)
    rw [utf8_cons]
    cases hd : String.utf8EncodeChar d with
    | nil => exact absurd hd String.utf8EncodeChar_ne_nil
    | cons x xs =>
      refine ⟨x, xs ++ utf8 ds, rfl, ?_⟩
      simpa [hd] using hfirst

/-- Behind its first byte the encoding of a character has no byte that starts one. -/
theorem not_isUTF8FirstByte {before after : List UInt8} {x : UInt8} (hne : before ≠ [])
    (h : String.utf8EncodeChar c = before ++ x :: after) : ¬ x.IsUTF8FirstByte := by
  have hlt : before.length < (String.utf8EncodeChar c).length := by
    rw [h, List.length_append, List.length_cons]
    omega
  have hx : (String.utf8EncodeChar c)[before.length] = x := by simp [h]
  rw [← hx, UInt8.isUTF8FirstByte_getElem_utf8EncodeChar]
  exact mt List.eq_nil_of_length_eq_zero hne

theorem OccursAt.utf8 (h : OccursAt needle text k) :
    OccursAt (Text.utf8 needle) (Text.utf8 text) (Text.utf8 (text.take k)).length := by
  obtain ⟨before, after, rfl, rfl⟩ := h
  exact ⟨Text.utf8 before, Text.utf8 after, by simp only [utf8_append], by rw [List.take_left]⟩

/-- A byte that starts an encoding, if it is not the very first one, stands behind the whole first
character. -/
theorem exists_behind_first {before rest : List UInt8} {x : UInt8} (hfirst : x.IsUTF8FirstByte)
    (hne : before ≠ []) (h : utf8 (c :: text) = before ++ x :: rest) :
    ∃ more, before = String.utf8EncodeChar c ++ more ∧ utf8 text = more ++ x :: rest := by
  rw [utf8_cons] at h
  rcases List.append_eq_append_iff.mp h with ⟨more, hbefore, htext⟩ | ⟨tail, hc, hrest⟩
  · exact ⟨more, hbefore, htext⟩
  · cases tail with
    | nil => exact ⟨[], by simpa using hc.symm, hrest.symm⟩
    | cons y ys =>
      obtain rfl : x = y := (List.cons.inj hrest).1
      exact absurd hfirst (not_isUTF8FirstByte hne hc)

/-- An encoded text, if it is not empty, occurs only where the text does. -/
theorem exists_occursAt_of_utf8 (hne : needle ≠ []) (h : OccursAt (utf8 needle) (utf8 text) b) :
    ∃ k, OccursAt needle text k ∧ b = (utf8 (text.take k)).length := by
  induction text generalizing b with
  | nil => exact absurd (utf8_eq_nil_iff.mp (occursAt_nil_iff.mp h).1) hne
  | cons c cs ih =>
    obtain ⟨before, after, htext, rfl⟩ := h
    by_cases hstart : before = []
    · subst hstart
      have hprefix : utf8 needle <+: utf8 (c :: cs) := ⟨after, htext.symm⟩
      exact ⟨0, occursAt_zero_iff.mpr (isPrefix_of_utf8 hprefix), rfl⟩
    · obtain ⟨x, xs, hx, hfirst⟩ := exists_utf8_eq_cons hne
      rw [hx, List.cons_append] at htext
      obtain ⟨more, rfl, hcs⟩ := exists_behind_first hfirst hstart htext
      rw [← List.cons_append, ← hx] at hcs
      obtain ⟨k, hk, hlength⟩ := ih ⟨more, after, hcs, rfl⟩
      refine ⟨k + 1, occursAt_cons_succ_iff.mpr hk, ?_⟩
      rw [List.take_succ_cons, utf8_cons, List.length_append, List.length_append, hlength]

theorem length_utf8_take_le {j : Nat} (h : k ≤ j) :
    (utf8 (text.take k)).length ≤ (utf8 (text.take j)).length := by
  obtain ⟨more, hmore⟩ := List.take_prefix_take_left (l := text) h
  rw [← hmore, utf8_append, List.length_append]
  exact Nat.le_add_right _ _

/-- The first occurrence of an encoded text is that of the text. -/
theorem isLeast_utf8 (h : IsLeast {j | OccursAt needle text j} k) :
    IsLeast {b | OccursAt (utf8 needle) (utf8 text) b} (utf8 (text.take k)).length := by
  refine ⟨h.1.utf8, fun b hb => ?_⟩
  by_cases hne : needle = []
  · subst hne
    have hzero : k ≤ 0 := h.2 (occursAt_zero_iff.mpr List.nil_prefix)
    rw [Nat.le_zero.mp hzero]
    exact Nat.zero_le b
  · obtain ⟨j, hj, rfl⟩ := exists_occursAt_of_utf8 hne hb
    exact length_utf8_take_le (h.2 hj)

theorem utf8_occurrences_eq_empty (h : {j | OccursAt needle text j} = ∅) :
    {b | OccursAt (utf8 needle) (utf8 text) b} = ∅ := by
  rw [Set.eq_empty_iff_forall_notMem] at h ⊢
  intro b hb
  by_cases hne : needle = []
  · exact h 0 (occursAt_zero_iff.mpr (hne ▸ List.nil_prefix))
  · obtain ⟨j, hj, -⟩ := exists_occursAt_of_utf8 hne hb
    exact h j hj

end PathQuery.Text
