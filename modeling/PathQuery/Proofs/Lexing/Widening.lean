import Mathlib.Tactic.Common
import PathQuery.Text.Blank

/-! Putting blanks into a text.
What a wider text starts with, up to its first blank, the original starts with as well. So a rule
that looks ahead for characters other than blanks finds nothing new in a wider text. -/
namespace PathQuery.Text

/-- The second text is the first one with blanks put in anywhere. -/
inductive Widens : List Char → List Char → Prop
  | nil : Widens [] []
  | keep (c : Char) {cs wider : List Char} (h : Widens cs wider) : Widens (c :: cs) (c :: wider)
  | blank {b : Char} {cs wider : List Char} (hb : isBlank b = true) (h : Widens cs wider) :
    Widens cs (b :: wider)

namespace Widens

variable {cs wider ds widerDs : List Char}

theorem append (h : Widens cs wider) (hd : Widens ds widerDs) :
    Widens (cs ++ ds) (wider ++ widerDs) := by
  induction h with
  | nil => exact hd
  | keep c _ ih => exact .keep c ih
  | blank hb _ ih => exact .blank hb ih

theorem append_left (cs : List Char) (h : Widens ds widerDs) : Widens (cs ++ ds) (cs ++ widerDs) := by
  induction cs with
  | nil => exact h
  | cons c cs ih => exact .keep c ih

theorem all_blank (h : Widens cs wider) (hcs : ∀ c ∈ cs, isBlank c = true) :
    ∀ c ∈ wider, isBlank c = true := by
  induction h with
  | nil => exact hcs
  | keep c _ ih =>
    obtain ⟨hc, hcs⟩ := List.forall_mem_cons.mp hcs
    exact List.forall_mem_cons.mpr ⟨hc, ih hcs⟩
  | blank hb _ ih => exact List.forall_mem_cons.mpr ⟨hb, ih hcs⟩

/-- A character other than a blank at the start has not been put in. -/
theorem of_cons {c : Char} (h : Widens cs (c :: wider)) (hc : isBlank c = false) :
    ∃ rest, cs = c :: rest ∧ Widens rest wider := by
  cases h with
  | keep _ h => exact ⟨_, rfl, h⟩
  | blank hb _ =>
    rw [hc] at hb
    cases hb

theorem mem (h : Widens cs wider) {c : Char} (hc : c ∈ wider) (hblank : isBlank c = false) :
    c ∈ cs := by
  induction h with
  | nil => exact hc
  | keep d _ ih =>
    rcases List.mem_cons.mp hc with rfl | hc
    · exact List.mem_cons_self
    · exact List.mem_cons_of_mem d (ih hc)
  | blank hb _ ih =>
    rcases List.mem_cons.mp hc with rfl | hc
    · rw [hb] at hblank
      cases hblank
    · exact ih hc

theorem isPrefix (h : Widens cs wider) {word : List Char} (hw : word <+: wider)
    (hblank : ∀ c ∈ word, isBlank c = false) : word <+: cs := by
  induction h generalizing word with
  | nil => exact hw
  | keep c _ ih =>
    cases word with
    | nil => exact List.nil_prefix
    | cons d word =>
      obtain ⟨rfl, hrest⟩ := List.cons_prefix_cons.mp hw
      exact List.cons_prefix_cons.mpr ⟨rfl, ih hrest (List.forall_mem_cons.mp hblank).2⟩
  | blank hb _ ih =>
    cases word with
    | nil => exact List.nil_prefix
    | cons d word =>
      obtain ⟨rfl, _⟩ := List.cons_prefix_cons.mp hw
      rw [(List.forall_mem_cons.mp hblank).1] at hb
      cases hb

/-- A condition on the next character that no blank meets fails of a wider text too. -/
theorem head_eq_false {p : Char → Bool} (h : Widens cs wider)
    (hblank : ∀ c, p c = true → isBlank c = false) (hcs : ∀ c ∈ cs.head?, p c = false) :
    ∀ c ∈ wider.head?, p c = false := by
  intro c hc
  by_contra hp
  have hword : [c] <+: wider := by
    obtain ⟨rest, rfl⟩ := List.head?_eq_some_iff.mp hc
    exact ⟨rest, rfl⟩
  obtain ⟨rest, rfl⟩ := h.isPrefix hword (by simpa using hblank c (by simpa using hp))
  exact hp (hcs c rfl)

end Widens
end PathQuery.Text
