import PathQuery.Proofs.Grammar.Expression
import PathQuery.Proofs.Lexing.Appending

/-! Signs and subtractions.
The lexer takes a minus sign for that of a number unless an operand can end with the token before
it. This suits the grammar: an expression ends with such a token, and none of its numbers follows
one. So a minus sign behind an expression always subtracts. -/
namespace PathQuery

namespace Token

/-- Numbers stand only where one may have a sign, and an operand has ended after the last token;
whether a number may have a sign at the start is given. -/
def Closes : Bool → List Token → Prop
  | signed, [] => signed = false
  | signed, t :: ts => (t.kind = .number → signed = true) ∧ Closes (!t.endsOperand) ts

variable {signed : Bool} {ts us : List Token}

@[simp] theorem closes_nil : Closes signed [] ↔ signed = false := Iff.rfl

@[simp] theorem closes_symbol (s : Symbol) :
    Closes signed (.symbol s :: ts) ↔ Closes (!(symbol s).endsOperand) ts := by
  simp [Closes, kind]

@[simp] theorem closes_identifier (name : String) :
    Closes signed (.identifier name :: ts) ↔ Closes false ts := by
  simp [Closes, kind, endsOperand]

theorem closes_literal (l : Literal) : Closes true [l.token] := by
  cases l with
  | bool b => cases b <;> simp [Literal.token]
  | _ => simp [Literal.token, Closes, endsOperand]

@[simp] theorem endsOperand_operator (op : BinaryOp) : (symbol op.symbol).endsOperand = false := by
  cases op <;> rfl

theorem Closes.append (h : Closes signed ts) (hu : Closes false us) : Closes signed (ts ++ us) := by
  induction ts generalizing signed with
  | nil =>
    obtain rfl : signed = false := h
    exact hu
  | cons t ts ih =>
    obtain ⟨ht, h⟩ := h
    exact ⟨ht, ih h⟩

/-- An operand in front of a symbol with which another one ends. -/
theorem Closes.close {s : Symbol} (h : Closes signed ts)
    (hs : (symbol s).endsOperand = true) (hu : Closes false us) :
    Closes signed (ts ++ .symbol s :: us) :=
  h.append (by simpa [hs] using hu)

theorem Closes.signAfter (h : Closes signed ts) : signAfter signed ts = false := by
  induction ts generalizing signed with
  | nil => exact h
  | cons t ts ih => exact ih h.2

theorem Closes.getLast (h : Closes signed ts) : ∀ t ∈ ts.getLast?, t.endsOperand = true := by
  induction ts generalizing signed with
  | nil => simp
  | cons t ts ih =>
    obtain ⟨_, h⟩ := h
    cases ts with
    | nil => simpa using h
    | cons u us => simpa using ih h

/-- What stands right before a number ends no operand. -/
theorem Closes.before_number {before after : List Token} {d : Double}
    (h : Closes signed (before ++ .number d :: after)) :
    ∀ t ∈ before.getLast?, t.endsOperand = false := by
  induction before generalizing signed with
  | nil => simp
  | cons t before ih =>
    obtain ⟨_, h⟩ := h
    cases before with
    | nil => simpa [kind] using h.1
    | cons u us => simpa using ih h

end Token

namespace Grammar
open Token (Closes)

mutual

theorem closes_chain {n : Nat} : ∀ c : Chain n, Closes true c.tokens
  | .operands _ first more => (closes_chain first).append (closes_operators more)
  | .unary u => closes_unary u

theorem closes_operators {n : Nat} : ∀ more : Operators n, Closes false more.tokens
  | .nil => rfl
  | .comparison op _ _ operand => by
    simpa [Operators.tokens] using closes_chain operand
  | .cons op _ _ operand more => by
    simpa [Operators.tokens] using (closes_chain operand).append (closes_operators more)

theorem closes_unary : ∀ u : Unary, Closes true u.tokens
  | .minus operand => by simpa [Unary.tokens, Token.endsOperand] using closes_unary operand
  | .not operand => by simpa [Unary.tokens, Token.endsOperand] using closes_unary operand
  | .negated e => by
    have he : Closes true (e.tokens ++ [.symbol .parenClose]) := (closes_chain e).close rfl rfl
    simpa [Unary.tokens, Token.endsOperand] using he
  | .access target accessors => (closes_primary target).append (closes_accessors accessors)

theorem closes_primary : ∀ p : Primary, Closes true p.tokens
  | .enclosed e => by
    have he : Closes true (e.tokens ++ [.symbol .parenClose]) := (closes_chain e).close rfl rfl
    simpa [Primary.tokens, Token.endsOperand] using he
  | .coerce _ arg => by
    have ha : Closes true (arg.tokens ++ [.symbol .parenClose]) := (closes_chain arg).close rfl rfl
    simpa [Primary.tokens, Token.endsOperand] using ha
  | .current => by simp [Primary.tokens, Token.endsOperand]
  | .root => by simp [Primary.tokens, Token.endsOperand]
  | .literal l => Token.closes_literal l

theorem closes_accessors : ∀ a : Accessors, Closes false a.tokens
  | .nil => rfl
  | .property _ more => by simpa [Accessors.tokens] using closes_accessors more
  | .call _ args more => by
    have ha : Closes true (args.tokens ++ .symbol .parenClose :: more.tokens) :=
      closes_arguments args (closes_accessors more)
    simpa [Accessors.tokens, Token.endsOperand] using ha
  | .element index more => by
    have hi : Closes true (index.tokens ++ .symbol .bracketClose :: more.tokens) :=
      (closes_chain index).close rfl (closes_accessors more)
    simpa [Accessors.tokens, Token.endsOperand] using hi

theorem closes_arguments : ∀ (args : Arguments) {rest : List Token}, Closes false rest →
    Closes true (args.tokens ++ .symbol .parenClose :: rest)
  | .none, _, hr => by simpa [Arguments.tokens, Token.endsOperand] using hr
  | .some first more, rest, hr => by
    have hm : Closes false (more.tokens ++ .symbol .parenClose :: rest) :=
      (closes_moreArguments more).close rfl hr
    simpa [Arguments.tokens] using (closes_chain first).append hm

theorem closes_moreArguments : ∀ args : MoreArguments, Closes false args.tokens
  | .nil => rfl
  | .cons next more => by
    have hn : Closes true (next.tokens ++ more.tokens) :=
      (closes_chain next).append (closes_moreArguments more)
    simpa [MoreArguments.tokens, Token.endsOperand] using hn

end

/-- What is read as an expression is an operand by the rule that the lexer follows. -/
theorem exists_operand {ts rest : List Token} {e : Expr} (h : Reads (Expr.read ts) e rest) :
    ∃ used, used ++ rest = ts ∧ Closes true used := by
  obtain ⟨c, rfl, _⟩ := exists_chain (Nat.zero_le 5) h
  exact ⟨c.tokens, rfl, closes_chain c⟩

end Grammar

/-! ## A minus sign behind an expression -/

namespace Token

variable {digits : List Char}

theorem readAll_digits (hne : digits ≠ []) (hd : ∀ c ∈ digits, c.isDigit = true) :
    readAll true digits = .ok [.number (Numeral.toDouble ⟨false, digits, [], 0⟩), .finish] := by
  let x : Lexeme := ⟨false, digits, [], hne, hd, by simp⟩
  have hchars : x.chars = digits := by simp [x, Lexeme.chars, Lexeme.unsigned]
  have hread : read? true (x.chars ++ []) = some (.number x.value, []) :=
    read?_number x (fun _ => rfl) (by simp [Apart])
  have hall : readAll true (x.chars ++ []) = (readAll false []).map (.number x.value :: ·) :=
    readAll_adjacent (Spells.number x) hread
  have hnil : readAll false [] = .ok [.finish] := readAll_of_nil rfl
  rw [List.append_nil, hchars, hnil] at hall
  exact hall

/-- Where no number may have a sign, a minus sign is a symbol. -/
theorem readAll_minus (cs : List Char) :
    readAll false ('-' :: cs) = (readAll true cs).map (.symbol .minus :: ·) := by
  have hread : read? false ('-' :: cs) = some (.symbol .minus, cs) := rfl
  exact readAll_adjacent (Spells.symbol .minus) hread

end Token

namespace Grammar

/-- An expression is not empty, an operand can end with its last token, and each of its numbers
comes first or behind a token with which none can end. So a minus sign and digits behind the text of
an expression are a subtraction and a number without a sign. -/
theorem minus_behind_expression :
    (∀ ts e rest, Reads (Expr.read ts) e rest →
      ∃ used, used ++ rest = ts ∧ used ≠ [] ∧ (∀ t ∈ used.getLast?, t.endsOperand = true) ∧
        ∀ before d after, used = before ++ .number d :: after →
          ∀ t ∈ before.getLast?, t.endsOperand = false) ∧
    ∀ (text : String) ts e digits, Token.ofText text = .ok (ts ++ [.finish]) →
      Reads (Expr.read (ts ++ [.finish])) e [.finish] →
      digits ≠ [] → (∀ c ∈ digits, c.isDigit = true) →
      Token.ofText (text ++ "-" ++ String.ofList digits) = .ok (ts ++ [.symbol .minus,
        .number (Numeral.toDouble ⟨false, digits, [], 0⟩), .finish]) := by
  constructor
  · intro ts e rest h
    obtain ⟨used, hts, hused⟩ := exists_operand h
    refine ⟨used, hts, ?_, hused.getLast, ?_⟩
    · rintro rfl
      cases hused
    · rintro before d after rfl
      exact hused.before_number
  · intro text ts e digits htext hread hne hd
    obtain ⟨used, hused, hcloses⟩ := exists_operand hread
    obtain rfl : used = ts := List.append_cancel_right hused
    have hdivided : Token.Divided ('-' :: digits) := by simp [Token.Divided, Token.divides]
    have hchars : (text ++ "-" ++ String.ofList digits).toList =
        text.toList ++ '-' :: digits := by simp
    rw [Token.ofText, hchars, Token.readAll_divided hdivided htext, hcloses.signAfter,
      Token.readAll_minus, Token.readAll_digits hne hd]
    rfl

/-- A number behind a bracket and a minus sign behind a parenthesis. -/
theorem minus_behind_expression_sample :
    let ts : List Token := [.symbol .parenOpen, .symbol .current, .symbol .bracketOpen,
      .number (Numeral.toDouble ⟨true, ['1'], [], 0⟩), .symbol .bracketClose, .symbol .parenClose]
    let e : Expr := .element .current (.literal (.number (Numeral.toDouble ⟨true, ['1'], [], 0⟩)))
    Token.ofText "(@[-1])" = .ok (ts ++ [.finish]) ∧
    Reads (Expr.read (ts ++ [.finish])) e [.finish] ∧
    Token.ofText "(@[-1])-20" = .ok (ts ++ [.symbol .minus,
      .number (Numeral.toDouble ⟨false, ['2', '0'], [], 0⟩), .finish]) := by
  intro ts e
  have htext : Token.ofText "(@[-1])" = .ok (ts ++ [.finish]) := by decide +kernel
  have hread : Reads (Expr.read (ts ++ [.finish])) e [.finish] := by
    unfold ts e
    generalize Numeral.toDouble ⟨true, ['1'], [], 0⟩ = d
    exact ⟨by simp, by with_unfolding_all rfl⟩
  have hd : ∀ c ∈ ['2', '0'], c.isDigit = true := List.all_eq_true.mp rfl
  have hwhole := minus_behind_expression.2 _ ts e ['2', '0'] htext hread (by simp) hd
  have hminus : "(@[-1])" ++ "-" ++ String.ofList ['2', '0'] = "(@[-1])-20" := by decide
  rw [hminus] at hwhole
  exact ⟨htext, hread, hwhole⟩

end Grammar
end PathQuery
