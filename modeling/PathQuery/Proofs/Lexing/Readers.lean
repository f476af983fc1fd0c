import Mathlib.Data.List.TakeWhile
import PathQuery.Proofs.Printing.Words

/-! What each rule of the lexer reads.
A rule that succeeds splits the text into what it has read and the rest; a rule with a look-ahead
also says what the rest does not start with. -/
namespace PathQuery.Token

variable {c : Char} {cs rest wider name text : List Char} {signed negative : Bool} {n : Numeral}

/-! ## Characters that are not blank -/

theorem isBlank_of_isDigit (h : c.isDigit = true) : Text.isBlank c = false := by
  have := isDigit_toNat h
  exact isBlank_of_toNat (by omega)

theorem isBlank_of_startsIdentifier (h : startsIdentifier c = true) : Text.isBlank c = false := by
  have := startsIdentifier_toNat h
  exact isBlank_of_toNat (by omega)

theorem inIdentifier_eq (c : Char) : inIdentifier c = (startsIdentifier c || c.isDigit) :=
  Bool.or_right_comm ..

theorem isBlank_of_inIdentifier (h : inIdentifier c = true) : Text.isBlank c = false := by
  rw [inIdentifier_eq, Bool.or_eq_true] at h
  exact h.elim isBlank_of_startsIdentifier isBlank_of_isDigit

theorem isIdentifier_ofList (h : isIdentifier (String.ofList name) = true) :
    ∃ c cs, name = c :: cs ∧ startsIdentifier c = true ∧ ∀ d ∈ cs, inIdentifier d = true := by
  simpa using isIdentifier_eq_true h

theorem isBlank_of_mem_identifier (h : isIdentifier (String.ofList name) = true) :
    ∀ c ∈ name, Text.isBlank c = false := by
  obtain ⟨c, cs, rfl, hc, hcs⟩ := isIdentifier_ofList h
  exact List.forall_mem_cons.mpr
    ⟨isBlank_of_startsIdentifier hc, fun d hd => isBlank_of_inIdentifier (hcs d hd)⟩

theorem isBlank_of_mem_spelling (s : Symbol) : ∀ c ∈ s.spelling.toList, Text.isBlank c = false := by
  have hall : s.spelling.toList.all (fun c => !Text.isBlank c) = true := by cases s <;> rfl
  simpa using hall

theorem isBlank_of_mem_chars (x : Lexeme) : ∀ c ∈ x.chars, Text.isBlank c = false := by
  have hwhole : ∀ c ∈ x.whole, Text.isBlank c = false :=
    fun c hc => isBlank_of_isDigit (x.whole_digits c hc)
  have hfraction : ∀ c ∈ x.fraction, Text.isBlank c = false :=
    fun c hc => isBlank_of_isDigit (x.fraction_digits c hc)
  have hminus : Text.isBlank '-' = false := by decide
  have hpoint : Text.isBlank '.' = false := by decide
  have hunsigned : ∀ c ∈ x.unsigned, Text.isBlank c = false := by
    rw [Lexeme.unsigned]
    split
    · simpa using hwhole
    · exact List.forall_mem_append.mpr ⟨hwhole, List.forall_mem_cons.mpr ⟨hpoint, hfraction⟩⟩
  rw [Lexeme.chars]
  split
  · exact List.forall_mem_cons.mpr ⟨hminus, hunsigned⟩
  · exact hunsigned

/-! ## Identifiers -/

theorem head_dropWhile (p : Char → Bool) (cs : List Char) :
    ∀ c ∈ (cs.dropWhile p).head?, p c = false := by
  intro c hc
  have := List.head?_dropWhile_not p cs
  rw [Option.mem_def.mp hc] at this
  simpa using this

theorem readIdentifier?_eq_some (h : readIdentifier? cs = some (name, rest)) :
    isIdentifier (String.ofList name) = true ∧ cs = name ++ rest ∧
      ∀ c ∈ rest.head?, inIdentifier c = false := by
  cases cs with
  | nil => cases h
  | cons c cs =>
    rw [readIdentifier?] at h
    split at h
    next hc =>
      cases h
      refine ⟨?_, congrArg (c :: ·) List.takeWhile_append_dropWhile.symm, head_dropWhile _ _⟩
      simp [isIdentifier, hc, List.all_takeWhile]
    next => cases h

theorem readIdentifier?_of_isIdentifier (h : isIdentifier (String.ofList name) = true)
    (hr : ∀ c ∈ rest.head?, inIdentifier c = false) :
    readIdentifier? (name ++ rest) = some (name, rest) := by
  obtain ⟨c, cs, rfl, hc, hcs⟩ := isIdentifier_ofList h
  exact readIdentifier?_append hc hcs hr

/-! ## Quoted texts -/

theorem readQuoted?_eq_some (h : readQuoted? cs = some (text, rest)) :
    ∃ q, (q = '\'' ∨ q = '"') ∧ q ∉ text ∧ cs = q :: (text ++ q :: rest) := by
  cases cs with
  | nil => cases h
  | cons q cs =>
    rw [readQuoted?] at h
    split at h
    next hq =>
      split at h
      next => cases h
      next d after hd =>
        cases h
        have hhead := head_dropWhile (· ≠ q) cs
        rw [hd] at hhead
        obtain rfl : d = q := by simpa using hhead d rfl
        refine ⟨d, hq, fun hm => ?_, ?_⟩
        · simpa using List.all_eq_true.mp List.all_takeWhile d hm
        · rw [← hd, List.takeWhile_append_dropWhile]
    next => cases h

theorem readQuoted?_ne_none {q : Char} (hq : q = '\'' ∨ q = '"') (h : q ∈ cs) :
    readQuoted? (q :: cs) ≠ none := by
  have hclosed : cs.dropWhile (· ≠ q) ≠ [] := fun hnil => by
    simpa using List.dropWhile_eq_nil_iff.mp hnil q h
  rw [readQuoted?, if_pos hq]
  split
  next hnil => exact absurd hnil hclosed
  next => exact Option.some_ne_none _

/-! ## Numbers -/

theorem isDigit_of_mem_takeWhile (cs : List Char) :
    ∀ d ∈ cs.takeWhile Char.isDigit, d.isDigit = true :=
  List.all_eq_true.mp List.all_takeWhile

theorem readUnsigned?_eq_some (h : readUnsigned? negative cs = some (n, rest)) :
    ∃ x : Lexeme, x.negative = negative ∧ x.numeral = n ∧ cs = x.unsigned ++ rest ∧
      x.EndsBefore rest := by
  have hcs : cs = _ := (List.takeWhile_append_dropWhile (p := Char.isDigit)).symm
  have hdigits := isDigit_of_mem_takeWhile cs
  have hhead := head_dropWhile Char.isDigit cs
  simp only [readUnsigned?] at h
  generalize cs.takeWhile Char.isDigit = whole at *
  generalize cs.dropWhile Char.isDigit = tail at *
  subst hcs
  split at h
  next => cases h
  next hwhole =>
    have hne : whole ≠ [] := by simpa using hwhole
    split at h
    next after =>
      have hafter : after = _ := (List.takeWhile_append_dropWhile (p := Char.isDigit)).symm
      have hdigits' := isDigit_of_mem_takeWhile after
      have hhead' := head_dropWhile Char.isDigit after
      generalize after.takeWhile Char.isDigit = fraction at *
      generalize after.dropWhile Char.isDigit = more at *
      subst hafter
      split at h
      next hempty =>
        cases h
        obtain rfl : fraction = [] := by simpa using hempty
        refine ⟨⟨negative, whole, [], hne, hdigits, hdigits'⟩, rfl, rfl, by simp [Lexeme.unsigned],
          hhead, fun _ c hc hprefix => ?_⟩
        obtain ⟨_, he⟩ := hprefix
        cases he
        rw [hhead' c rfl] at hc
        cases hc
      next hfraction =>
        cases h
        have hne' : fraction ≠ [] := by simpa using hfraction
        exact ⟨⟨negative, whole, fraction, hne, hdigits, hdigits'⟩, rfl, rfl,
          by simp [Lexeme.unsigned, hne'], hhead', fun he => absurd he hne'⟩
    next hpoint =>
      cases h
      refine ⟨⟨negative, whole, [], hne, hdigits, by simp⟩, rfl, rfl, by simp [Lexeme.unsigned],
        hhead, fun _ c _ hprefix => ?_⟩
      obtain ⟨_, he⟩ := hprefix
      exact hpoint _ he.symm

theorem readNumber?_eq_some (h : readNumber? signed cs = some (n, rest)) :
    ∃ x : Lexeme, (x.negative = true → signed = true) ∧ x.numeral = n ∧ cs = x.chars ++ rest ∧
      x.EndsBefore rest := by
  unfold readNumber? at h
  split at h
  next cs =>
    split at h
    next hs =>
      obtain ⟨x, hx, hn, hcs, hends⟩ := readUnsigned?_eq_some h
      refine ⟨x, fun _ => hs, hn, ?_, hends⟩
      rw [Lexeme.chars, if_pos hx, List.cons_append, ← hcs]
    next => cases h
  next =>
    obtain ⟨x, hx, hn, hcs, hends⟩ := readUnsigned?_eq_some h
    refine ⟨x, fun hneg => absurd hneg (by simp [hx]), hn, ?_, hends⟩
    rw [Lexeme.chars, if_neg (by simp [hx]), ← hcs]

theorem readUnsigned?_ne_none (h : c.isDigit = true) : readUnsigned? negative (c :: cs) ≠ none := by
  simp only [readUnsigned?, List.takeWhile_cons_of_pos h, List.isEmpty_cons, Bool.false_eq_true,
    if_false]
  split
  · split <;> exact Option.some_ne_none _
  · exact Option.some_ne_none _

theorem readNumber?_ne_none {x : Lexeme} (hs : x.negative = true → signed = true) :
    readNumber? signed (x.chars ++ rest) ≠ none := by
  obtain ⟨c, cs, hx, hc⟩ := unsigned_eq_cons x
  rw [Lexeme.chars]
  split
  next hn =>
    rw [List.cons_append, readNumber?, if_pos (hs hn), hx]
    exact readUnsigned?_ne_none hc
  next =>
    rw [hx, List.cons_append, readNumber?]
    · exact readUnsigned?_ne_none hc
    · rintro _ he
      exact digit_ne_minus hc (List.cons.inj he).1

/-! ## Coercions -/

theorem readCoercion?_eq_some (h : readCoercion? cs = some (name, rest)) :
    isIdentifier (String.ofList name) = true ∧ cs = '<' :: (name ++ '>' :: rest) := by
  unfold readCoercion? at h
  split at h
  next cs =>
    split at h
    next hi =>
      cases h
      obtain ⟨hname, hcs, _⟩ := readIdentifier?_eq_some hi
      exact ⟨hname, congrArg ('<' :: ·) hcs⟩
    next => cases h
  next => cases h

theorem readCoercion?_of_isIdentifier (h : isIdentifier (String.ofList name) = true) :
    readCoercion? ('<' :: (name ++ '>' :: rest)) = some (name, rest) := by
  have hi : readIdentifier? (name ++ '>' :: rest) = some (name, '>' :: rest) :=
    readIdentifier?_of_isIdentifier h (by rintro _ ⟨⟩; rfl)
  simp [readCoercion?, hi]

/-! ## Symbols -/

/-- The symbol that is read is the first of all symbols with which the text starts. -/
theorem readSymbol?_eq_some_iff {s : Symbol} : readSymbol? cs = some (s, rest) ↔
    ∃ before after, symbols = before ++ s :: after ∧ cs = s.spelling.toList ++ rest ∧
      ∀ s' ∈ before, ¬ s'.spelling.toList <+: cs := by
  rw [readSymbol?, List.findSome?_eq_some_iff]
  constructor
  · rintro ⟨before, s', after, hall, hs, hbefore⟩
    split at hs
    next hprefix =>
      cases hs
      obtain ⟨rest, rfl⟩ := List.isPrefixOf_iff_prefix.mp hprefix
      refine ⟨before, after, hall, by simp, fun s' hs' hp => ?_⟩
      simpa [List.isPrefixOf_iff_prefix.mpr hp] using hbefore s' hs'
    next => cases hs
  · rintro ⟨before, after, hall, rfl, hbefore⟩
    refine ⟨before, s, after, hall, by simp, fun s' hs' => if_neg fun hp => ?_⟩
    exact hbefore s' hs' (List.isPrefixOf_iff_prefix.mp hp)

theorem mem_symbols (s : Symbol) : s ∈ symbols := by cases s <;> decide

theorem readSymbol?_eq_none_iff : readSymbol? cs = none ↔
    ∀ s : Symbol, ¬ s.spelling.toList <+: cs := by
  simp [readSymbol?, List.findSome?_eq_none_iff, List.isPrefixOf_iff_prefix, mem_symbols]

end PathQuery.Token
