import PathQuery.Proofs.Lexing.Readers

/-! Numerals as they are written.
The grammar of numerals stands here beside their reader. Where a text starts with a numeral of the
grammar, the reader succeeds and goes at least as far, so that it finds the longest one. -/
namespace PathQuery.Numeral
open Token (takeWhile_append_of_head dropWhile_append_of_head isDigit_of_mem_takeWhile
  length_dropWhile_le isBlank_of_isDigit)

/-! ## The grammar -/

/-- A sign or none; whether it is a minus. -/
inductive WrittenSign : List Char → Bool → Prop
  | none : WrittenSign [] false
  | plus : WrittenSign ['+'] false
  | minus : WrittenSign ['-'] true

/-- Digits, or a point with digits on one side of it at least. -/
inductive WrittenMantissa : List Char → List Char → List Char → Prop
  | digits {whole : List Char} (hne : whole ≠ []) (hwhole : ∀ c ∈ whole, c.isDigit = true) :
    WrittenMantissa whole whole []
  | pointed {whole fraction : List Char} (hne : whole ≠ [] ∨ fraction ≠ [])
    (hwhole : ∀ c ∈ whole, c.isDigit = true) (hfraction : ∀ c ∈ fraction, c.isDigit = true) :
    WrittenMantissa (whole ++ '.' :: fraction) whole fraction

/-- A power of ten or none. -/
inductive WrittenPower : List Char → Int → Prop
  | none : WrittenPower [] 0
  | some {e : Char} {sign digits : List Char} {negative : Bool} (he : e = 'e' ∨ e = 'E')
    (hsign : WrittenSign sign negative) (hne : digits ≠ [])
    (hdigits : ∀ c ∈ digits, c.isDigit = true) :
    WrittenPower (e :: (sign ++ digits))
      (if negative then -(digitsValue digits : Int) else digitsValue digits)

/-- A text that is a numeral. -/
inductive Written : List Char → Numeral → Prop
  | numeral {sign mantissa power whole fraction : List Char} {negative : Bool} {exponent : Int}
    (hsign : WrittenSign sign negative) (hmantissa : WrittenMantissa mantissa whole fraction)
    (hpower : WrittenPower power exponent) :
    Written (sign ++ (mantissa ++ power)) ⟨negative, whole, fraction, exponent⟩

/-- A start of a text that is a numeral, while no longer one is. -/
structure Longest (cs lexeme : List Char) (n : Numeral) : Prop where
  start : lexeme <+: cs
  written : Written lexeme n
  longest : ∀ other m, other <+: cs → Written other m → other.length ≤ lexeme.length

variable {cs rest lexeme whole fraction digits : List Char} {negative : Bool} {exponent : Int}
  {n : Numeral}

/-! ## Digits in front of a text -/

theorem takeWhile_digits (h : ∀ c ∈ digits, c.isDigit = true) (rest : List Char) :
    (digits ++ rest).takeWhile Char.isDigit = digits ++ rest.takeWhile Char.isDigit :=
  List.takeWhile_append_of_pos h

theorem dropWhile_digits (h : ∀ c ∈ digits, c.isDigit = true) (rest : List Char) :
    (digits ++ rest).dropWhile Char.isDigit = rest.dropWhile Char.isDigit :=
  List.dropWhile_append_of_pos h

theorem takeWhile_of_head (h : ∀ c ∈ rest.head?, c.isDigit = false) :
    rest.takeWhile Char.isDigit = [] :=
  takeWhile_append_of_head (List.forall_mem_nil _) h

theorem dropWhile_of_head (h : ∀ c ∈ rest.head?, c.isDigit = false) :
    rest.dropWhile Char.isDigit = rest :=
  dropWhile_append_of_head (List.forall_mem_nil _) h

/-! ## Signs -/

theorem sign_of_head (h : ∀ c ∈ cs.head?, c ≠ '-' ∧ c ≠ '+') : sign cs = (false, cs) := by
  cases cs with
  | nil => rfl
  | cons c cs =>
    obtain ⟨hminus, hplus⟩ := h c rfl
    rw [sign]
    · exact fun cs he => hminus (List.cons.inj he).1
    · exact fun cs he => hplus (List.cons.inj he).1

theorem sign_append {text : List Char} (h : WrittenSign text negative)
    (hrest : ∀ c ∈ rest.head?, c ≠ '-' ∧ c ≠ '+') : sign (text ++ rest) = (negative, rest) := by
  cases h with
  | none => exact sign_of_head hrest
  | plus => rfl
  | minus => rfl

theorem exists_sign (cs : List Char) :
    ∃ text, cs = text ++ (sign cs).2 ∧ WrittenSign text (sign cs).1 := by
  rw [sign.eq_def]
  split
  · exact ⟨_, rfl, .minus⟩
  · exact ⟨_, rfl, .plus⟩
  · exact ⟨[], rfl, .none⟩

theorem head_digits (hne : digits ≠ []) (h : ∀ c ∈ digits, c.isDigit = true) (rest : List Char) :
    ∀ c ∈ (digits ++ rest).head?, c ≠ '-' ∧ c ≠ '+' := by
  cases digits with
  | nil => exact absurd rfl hne
  | cons d digits =>
    intro c hc
    obtain rfl := Option.some.inj hc
    have hd := h d List.mem_cons_self
    constructor <;> (rintro rfl; exact absurd hd (by decide))

/-! ## Mantissas -/

theorem mantissa?_point (hne : whole ≠ [] ∨ fraction ≠ [])
    (hwhole : ∀ c ∈ whole, c.isDigit = true) (hfraction : ∀ c ∈ fraction, c.isDigit = true)
    (rest : List Char) : mantissa? (whole ++ '.' :: (fraction ++ rest)) =
      some (whole, fraction ++ rest.takeWhile Char.isDigit, rest.dropWhile Char.isDigit) := by
  have hpoint : ∀ c ∈ ('.' :: (fraction ++ rest)).head?, c.isDigit = false := by simp
  have hempty : (whole.isEmpty && (fraction ++ rest.takeWhile Char.isDigit).isEmpty) = false := by
    rcases hne with hne | hne <;> simp [hne]
  rw [mantissa?, takeWhile_append_of_head hwhole hpoint, dropWhile_append_of_head hwhole hpoint]
  simp only [takeWhile_digits hfraction, dropWhile_digits hfraction, hempty]
  rfl

/-- Reading a mantissa ends at a character that cannot go on with it. -/
theorem mantissa?_append {text : List Char} (h : WrittenMantissa text whole fraction)
    (hrest : ∀ c ∈ rest.head?, c.isDigit = false ∧ c ≠ '.') :
    mantissa? (text ++ rest) = some (whole, fraction, rest) := by
  have hdigit : ∀ c ∈ rest.head?, c.isDigit = false := fun c hc => (hrest c hc).1
  cases h with
  | digits hne hwhole =>
    rw [mantissa?, takeWhile_append_of_head hwhole hdigit,
      dropWhile_append_of_head hwhole hdigit]
    split
    next after => exact absurd rfl (hrest '.' rfl).2
    next => simp [hne]
  | pointed hne hwhole hfraction =>
    rw [List.append_assoc, List.cons_append, mantissa?_point hne hwhole hfraction,
      takeWhile_of_head hdigit, dropWhile_of_head hdigit, List.append_nil]

/-- Reading goes on at least to the end of a mantissa. -/
theorem exists_mantissa?_append {text : List Char} (h : WrittenMantissa text whole fraction)
    (rest : List Char) : ∃ more behind after,
      mantissa? (text ++ rest) = some (more, behind, after) ∧ after.length ≤ rest.length := by
  cases h with
  | digits hne hwhole =>
    have hsome : (whole ++ rest.takeWhile Char.isDigit).isEmpty = false := by simp [hne]
    have hle : (rest.dropWhile Char.isDigit).length ≤ rest.length := length_dropWhile_le _ _
    rw [mantissa?, takeWhile_digits hwhole, dropWhile_digits hwhole]
    simp only [hsome, Bool.false_and, Bool.false_eq_true, if_false]
    split
    next after hafter =>
      rw [hafter, List.length_cons] at hle
      have := length_dropWhile_le Char.isDigit after
      exact ⟨_, _, _, rfl, by omega⟩
    next => exact ⟨_, _, _, rfl, hle⟩
  | pointed hne hwhole hfraction =>
    rw [List.append_assoc, List.cons_append, mantissa?_point hne hwhole hfraction]
    exact ⟨_, _, _, rfl, length_dropWhile_le _ _⟩

theorem mantissa?_eq_some (h : mantissa? cs = some (whole, fraction, rest)) :
    ∃ text, cs = text ++ rest ∧ WrittenMantissa text whole fraction := by
  have hcs : cs = _ := (List.takeWhile_append_dropWhile (p := Char.isDigit)).symm
  have hwhole := isDigit_of_mem_takeWhile cs
  rw [mantissa?] at h
  generalize cs.takeWhile Char.isDigit = taken at *
  generalize cs.dropWhile Char.isDigit = tail at *
  subst hcs
  split at h
  next after =>
    have hafter : after = _ := (List.takeWhile_append_dropWhile (p := Char.isDigit)).symm
    have hfraction := isDigit_of_mem_takeWhile after
    simp only at h
    split at h
    next => cases h
    next hne =>
      cases h
      refine ⟨whole ++ '.' :: after.takeWhile Char.isDigit, ?_, .pointed ?_ hwhole hfraction⟩
      · rw [List.append_assoc, List.cons_append, List.takeWhile_append_dropWhile]
      · simpa [or_iff_not_and_not] using hne
  next =>
    split at h
    next => cases h
    next hne =>
      cases h
      exact ⟨whole, rfl, .digits (by simpa using hne) hwhole⟩

/-! ## Powers of ten -/

theorem power_letter {e : Char} (he : e = 'e' ∨ e = 'E') {text : List Char}
    (hsign : WrittenSign text negative) (hne : digits ≠ [])
    (hdigits : ∀ c ∈ digits, c.isDigit = true) (rest : List Char) :
    power (e :: (text ++ (digits ++ rest))) =
      (if negative then -(digitsValue (digits ++ rest.takeWhile Char.isDigit) : Int)
        else digitsValue (digits ++ rest.takeWhile Char.isDigit), rest.dropWhile Char.isDigit) := by
  have hsome : (digits ++ rest.takeWhile Char.isDigit).isEmpty = false := by simp [hne]
  rw [power, if_pos he, sign_append hsign (head_digits hne hdigits rest)]
  simp only [takeWhile_digits hdigits, dropWhile_digits hdigits, hsome]
  rfl

theorem exists_power (cs : List Char) :
    ∃ text, cs = text ++ (power cs).2 ∧ WrittenPower text (power cs).1 := by
  cases cs with
  | nil => exact ⟨[], rfl, .none⟩
  | cons e cs =>
    obtain ⟨text, hcs, hsign⟩ := exists_sign cs
    rw [power]
    generalize sign cs = signed at *
    obtain ⟨negative, rest⟩ := signed
    split
    next he =>
      simp only
      split
      next => exact ⟨[], rfl, .none⟩
      next hne =>
        have hdigits := isDigit_of_mem_takeWhile rest
        refine ⟨e :: (text ++ rest.takeWhile Char.isDigit), ?_,
          .some he hsign (by simpa using hne) hdigits⟩
        rw [List.cons_append, List.append_assoc, List.takeWhile_append_dropWhile, ← hcs]
    next => exact ⟨[], rfl, .none⟩

theorem power_eq (h : WrittenPower cs exponent) : power cs = (exponent, []) := by
  cases h with
  | none => rfl
  | some he hsign hne hdigits => simpa using power_letter he hsign hne hdigits []

/-- Reading goes on at least to the end of a power. -/
theorem length_power_append_le (h : WrittenPower cs exponent) (rest : List Char) :
    (power (cs ++ rest)).2.length ≤ rest.length := by
  cases h with
  | none =>
    obtain ⟨text, htext, -⟩ := exists_power rest
    have hlength := congrArg List.length htext
    rw [List.length_append] at hlength
    rw [List.nil_append]
    omega
  | some he hsign hne hdigits =>
    rw [List.cons_append, List.append_assoc, power_letter he hsign hne hdigits]
    exact length_dropWhile_le _ _

theorem WrittenPower.head (h : WrittenPower cs exponent) (hne : cs ≠ []) (rest : List Char) :
    ∀ c ∈ (cs ++ rest).head?, c.isDigit = false ∧ c ≠ '.' := by
  cases h with
  | none => exact absurd rfl hne
  | some he hsign _ hdigits =>
    intro c hc
    obtain rfl := Option.some.inj hc
    rcases he with rfl | rfl <;> decide

theorem WrittenMantissa.head (h : WrittenMantissa cs whole fraction) (rest : List Char) :
    ∀ c ∈ (cs ++ rest).head?, c ≠ '-' ∧ c ≠ '+' := by
  cases h with
  | digits hne hwhole => exact head_digits hne hwhole rest
  | pointed hne hwhole hfraction =>
    rw [List.append_assoc]
    by_cases hempty : whole = []
    · simp [hempty]
    · exact head_digits hempty hwhole _

/-! ## Numerals -/

theorem read?_eq_some (h : read? cs = some (n, rest)) :
    ∃ lexeme, cs = lexeme ++ rest ∧ Written lexeme n := by
  obtain ⟨text, hcs, hsign⟩ := exists_sign cs
  rw [read?] at h
  generalize sign cs = signed at *
  obtain ⟨negative, unsigned⟩ := signed
  simp only at h
  split at h
  next => cases h
  next whole fraction behind hm =>
    obtain ⟨mantissa, hunsigned, hmantissa⟩ := mantissa?_eq_some hm
    obtain ⟨tail, hbehind, hpower⟩ := exists_power behind
    generalize power behind = powered at *
    obtain ⟨exponent, after⟩ := powered
    cases h
    refine ⟨text ++ (mantissa ++ tail), ?_, .numeral hsign hmantissa hpower⟩
    rw [hcs, hunsigned, hbehind]
    simp

/-- A numeral is read as what it is. -/
theorem read?_of_written (h : Written cs n) : read? cs = some (n, []) := by
  cases h with
  | @numeral sign mantissa power whole fraction negative exponent hsign hmantissa hpower =>
    have hread : mantissa? (mantissa ++ power) = some (whole, fraction, power) := by
      by_cases hne : power = []
      · subst hne
        exact mantissa?_append hmantissa (by simp)
      · have hhead := hpower.head hne []
        rw [List.append_nil] at hhead
        exact mantissa?_append hmantissa hhead
    rw [read?, sign_append hsign (hmantissa.head power)]
    simp only [hread, power_eq hpower]

/-- Reading goes on at least to the end of a numeral. -/
theorem exists_read?_append (h : Written lexeme n) (rest : List Char) :
    ∃ m after, read? (lexeme ++ rest) = some (m, after) ∧ after.length ≤ rest.length := by
  cases h with
  | @numeral sign mantissa power whole fraction negative exponent hsign hmantissa hpower =>
    have hread : ∃ more behind after, mantissa? (mantissa ++ (power ++ rest)) =
        some (more, behind, after) ∧ (Numeral.power after).2.length ≤ rest.length := by
      by_cases hne : power = []
      · subst hne
        obtain ⟨more, behind, after, hm, hle⟩ := exists_mantissa?_append hmantissa rest
        have := length_power_append_le .none after
        exact ⟨more, behind, after, hm, Nat.le_trans this hle⟩
      · exact ⟨_, _, _, mantissa?_append hmantissa (hpower.head hne rest),
          length_power_append_le hpower rest⟩
    obtain ⟨more, behind, after, hm, hle⟩ := hread
    rw [List.append_assoc, List.append_assoc, read?,
      sign_append hsign (hmantissa.head (power ++ rest))]
    simp only [hm]
    exact ⟨_, _, rfl, hle⟩

theorem Written.unique {m : Numeral} (hn : Written cs n) (hm : Written cs m) : n = m := by
  have := (read?_of_written hn).symm.trans (read?_of_written hm)
  simpa using this

/-- The whole of a text is read as a numeral if it is one. -/
theorem ofChars?_eq_some_iff : ofChars? cs = some n ↔ Written cs n := by
  constructor
  · intro h
    rw [ofChars?] at h
    split at h
    next m hread =>
      cases h
      obtain ⟨lexeme, hcs, hwritten⟩ := read?_eq_some hread
      rw [List.append_nil] at hcs
      exact hcs ▸ hwritten
    next => cases h
  · intro h
    rw [ofChars?, read?_of_written h]

theorem longest_of_read? (h : read? cs = some (n, rest)) :
    ∃ lexeme, cs = lexeme ++ rest ∧ Longest cs lexeme n := by
  obtain ⟨lexeme, hcs, hwritten⟩ := read?_eq_some h
  refine ⟨lexeme, hcs, ⟨rest, hcs.symm⟩, hwritten, fun other m hother hm => ?_⟩
  obtain ⟨behind, rfl⟩ := hother
  obtain ⟨k, after, hread, hle⟩ := exists_read?_append hm behind
  -- the text is the same either way, so what is left behind the lexeme is not the longer part
  obtain ⟨-, rfl⟩ : n = k ∧ rest = after := by simpa using h.symm.trans hread
  have hlength := congrArg List.length hcs
  simp only [List.length_append] at hlength
  omega

/-- The numeral that is read from a text is the longest one that it starts with. -/
theorem map_read?_eq_some_iff :
    (read? cs).map Prod.fst = some n ↔ ∃ lexeme, Longest cs lexeme n := by
  constructor
  · intro h
    obtain ⟨⟨m, rest⟩, hread, rfl⟩ := Option.map_eq_some_iff.mp h
    obtain ⟨lexeme, -, hlongest⟩ := longest_of_read? hread
    exact ⟨lexeme, hlongest⟩
  · rintro ⟨lexeme, hlongest⟩
    obtain ⟨behind, hcs⟩ := hlongest.start
    obtain ⟨m, rest, hread, -⟩ := exists_read?_append hlongest.written behind
    rw [hcs] at hread
    obtain ⟨other, -, hother⟩ := longest_of_read? hread
    have hle := hlongest.longest other m hother.start hother.written
    have hge := hother.longest lexeme n hlongest.start hlongest.written
    have hsame : other = lexeme :=
      (List.prefix_of_prefix_length_le hother.start hlongest.start hle).eq_of_length
        (Nat.le_antisymm hle hge)
    rw [hread, Option.map_some, hlongest.written.unique (hsame ▸ hother.written)]

/-- A power without digits is none: what is left starts with its letter. -/
example : (read? ['1', '.', 'e', '+', 'k']).map Prod.snd = some ['e', '+', 'k'] := rfl

end PathQuery.Numeral
