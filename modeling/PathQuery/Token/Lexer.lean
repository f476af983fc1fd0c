import PathQuery.Error
import PathQuery.Numeral
import PathQuery.Text.Blank

/-! Splitting a path text into tokens.
At each place the rules are tried in one order: quoted strings, numbers, coercions in angle
brackets, symbols with the longest first, identifiers. Blanks separate tokens and are skipped. A
minus sign belongs to a number only where no operand ends before it. -/
namespace PathQuery.Token

/-- Letters and the underscore start an identifier. -/
def startsIdentifier (c : Char) : Bool := c.isAlpha || c == '_'

/-- Digits may follow. -/
def inIdentifier (c : Char) : Bool := c.isAlphanum || c == '_'

/-- An identifier and what follows it. -/
def readIdentifier? : List Char → Option (List Char × List Char)
  | [] => none
  | c :: cs =>
    if startsIdentifier c then some (c :: cs.takeWhile inIdentifier, cs.dropWhile inIdentifier)
    else none

/-- A text between two single or two double quotes, and what follows it. -/
def readQuoted? : List Char → Option (List Char × List Char)
  | [] => none
  | q :: cs =>
    if q = '\'' ∨ q = '"' then
      match cs.dropWhile (· ≠ q) with
      | [] => none
      | _ :: rest => some (cs.takeWhile (· ≠ q), rest)
    else none

/-- Digits, perhaps with a point and further digits, and what follows them. -/
def readUnsigned? (negative : Bool) (cs : List Char) : Option (Numeral × List Char) :=
  let whole := cs.takeWhile Char.isDigit
  let rest := cs.dropWhile Char.isDigit
  if whole.isEmpty then none
  else
    match rest with
    | '.' :: after =>
      let fraction := after.takeWhile Char.isDigit
      if fraction.isEmpty then some (⟨negative, whole, [], 0⟩, rest)
      else some (⟨negative, whole, fraction, 0⟩, after.dropWhile Char.isDigit)
    | _ => some (⟨negative, whole, [], 0⟩, rest)

/-- A number, with a minus sign only where one is allowed, and what follows it. -/
def readNumber? (signed : Bool) : List Char → Option (Numeral × List Char)
  | '-' :: cs => if signed then readUnsigned? true cs else none
  | cs => readUnsigned? false cs

/-- An identifier in angle brackets, and what follows it. -/
def readCoercion? : List Char → Option (List Char × List Char)
  | '<' :: cs =>
    match readIdentifier? cs with
    | some (name, '>' :: rest) => some (name, rest)
    | _ => none
  | _ => none

/-- All symbols, each before those whose spelling starts its own. -/
def symbols : List Symbol := [
  .strictEqual, .strictNotEqual, .filterOpen, .mapOpen, .recurse, .equal, .notEqual, .lessEqual,
  .greaterEqual, .and, .or, .root, .current, .dot, .star, .plus, .minus, .slash, .greater, .less,
  .not, .parenOpen, .parenClose, .bracketOpen, .bracketClose, .braceOpen, .braceClose, .comma,
  .colon]

/-- The longest symbol at the start of a text, and what follows it. -/
def readSymbol? (cs : List Char) : Option (Symbol × List Char) :=
  symbols.findSome? fun s =>
    if s.spelling.toList.isPrefixOf cs then some (s, cs.drop s.spelling.toList.length) else none

/-- The first token of a text that does not start with a blank, and what follows it. -/
def read? (signed : Bool) (cs : List Char) : Option (Token × List Char) :=
  ((readQuoted? cs).map fun r => (.string (String.ofList r.1), r.2)) <|>
  ((readNumber? signed cs).map fun r => (.number r.1.toDouble, r.2)) <|>
  ((readCoercion? cs).map fun r => (.coercion (String.ofList r.1), r.2)) <|>
  ((readSymbol? cs).map fun r => (.symbol r.1, r.2)) <|>
  ((readIdentifier? cs).map fun r => (.identifier (String.ofList r.1), r.2))

theorem length_dropWhile_le (p : Char → Bool) (cs : List Char) :
    (cs.dropWhile p).length ≤ cs.length := (List.dropWhile_sublist p).length_le

theorem length_readIdentifier? {cs name rest : List Char}
    (h : readIdentifier? cs = some (name, rest)) : rest.length < cs.length := by
  unfold readIdentifier? at h
  split at h
  · simp at h
  next c cs =>
    split at h
    · cases h
      have := length_dropWhile_le inIdentifier cs
      simp only [List.length_cons]
      omega
    · simp at h

theorem length_readQuoted? {cs text rest : List Char}
    (h : readQuoted? cs = some (text, rest)) : rest.length < cs.length := by
  unfold readQuoted? at h
  split at h
  · simp at h
  next q cs =>
    have := length_dropWhile_le (· ≠ q) cs
    split at h
    · split at h
      · simp at h
      next hd =>
        cases h
        rw [hd] at this
        simp only [List.length_cons] at this ⊢
        omega
    · simp at h

theorem length_dropWhile_lt {p : Char → Bool} {cs : List Char}
    (h : (cs.takeWhile p).isEmpty = false) : (cs.dropWhile p).length < cs.length := by
  cases cs with
  | nil => simp at h
  | cons c cs =>
    cases hc : p c with
    | false => simp [hc] at h
    | true =>
      rw [List.dropWhile_cons_of_pos hc]
      have := length_dropWhile_le p cs
      simp only [List.length_cons]
      omega

theorem length_readUnsigned? {negative : Bool} {cs rest : List Char} {n : Numeral}
    (h : readUnsigned? negative cs = some (n, rest)) : rest.length < cs.length := by
  simp only [readUnsigned?] at h
  split at h
  · simp at h
  next hw =>
    have hlt := length_dropWhile_lt (Bool.eq_false_iff.2 hw)
    split at h
    next after hr =>
      have := length_dropWhile_le Char.isDigit after
      rw [hr] at hlt
      simp only [List.length_cons] at hlt
      split at h
      · cases h
        rw [hr]
        simp only [List.length_cons]
        omega
      · cases h
        omega
    · cases h
      exact hlt

theorem length_readNumber? {signed : Bool} {cs rest : List Char} {n : Numeral}
    (h : readNumber? signed cs = some (n, rest)) : rest.length < cs.length := by
  unfold readNumber? at h
  split at h
  · split at h
    · have := length_readUnsigned? h
      simp only [List.length_cons]
      omega
    · simp at h
  · exact length_readUnsigned? h

theorem length_readCoercion? {cs name rest : List Char}
    (h : readCoercion? cs = some (name, rest)) : rest.length < cs.length := by
  unfold readCoercion? at h
  split at h
  next cs =>
    split at h
    next hi =>
      cases h
      have := length_readIdentifier? hi
      simp only [List.length_cons] at this ⊢
      omega
    · simp at h
  · simp at h

theorem length_readSymbol? {cs rest : List Char} {s : Symbol}
    (h : readSymbol? cs = some (s, rest)) : rest.length < cs.length := by
  obtain ⟨t, _, ht⟩ := List.exists_of_findSome?_eq_some h
  have hpos : 0 < t.spelling.toList.length := by cases t <;> decide
  split at ht
  next hp =>
    have hle := (List.isPrefixOf_iff_prefix.1 hp).length_le
    cases ht
    rw [List.length_drop]
    omega
  · simp at ht

theorem length_read? {signed : Bool} {cs rest : List Char} {t : Token}
    (h : read? signed cs = some (t, rest)) : rest.length < cs.length := by
  simp only [read?, Option.orElse_eq_orElse, Option.orElse_eq_or, Option.or_eq_some_iff,
    Option.map_eq_some_iff] at h
  rcases h with ⟨r, hr, he⟩ | ⟨_, ⟨r, hr, he⟩ | ⟨_, ⟨r, hr, he⟩ | ⟨_, ⟨r, hr, he⟩ |
    ⟨_, r, hr, he⟩⟩⟩⟩ <;> cases he
  · exact length_readQuoted? hr
  · exact length_readNumber? hr
  · exact length_readCoercion? hr
  · exact length_readSymbol? hr
  · exact length_readIdentifier? hr

/-- The tokens of a text, in front of which a number may have a sign or not. -/
def readAll (signed : Bool) (cs : List Char) : Except PathError (List Token) :=
  match _ht : Text.trimStart cs with
  | [] => .ok [.finish]
  | c :: after =>
    match _hr : read? signed (c :: after) with
    | none => .error (.noToken c)
    | some (t, rest) => (readAll (!t.endsOperand) rest).map (t :: ·)
termination_by cs.length
decreasing_by
  have := Text.length_trimStart_le cs
  have := length_read? _hr
  rw [_ht] at *
  omega

/-- Splits a path text into tokens, of which the last marks the end. -/
def ofText (path : String) : Except PathError (List Token) := readAll true path.toList

end PathQuery.Token
