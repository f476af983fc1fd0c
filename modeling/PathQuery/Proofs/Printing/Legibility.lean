import PathQuery.Proofs.Printing.Printer

/-! Printed steps can be read word by word.
A number with a minus sign is read as such only where no operand ends before it. In what is printed
a number only ever stands where an operand is expected. -/
namespace PathQuery

namespace Word

@[simp] theorem readable_symbol (signed : Bool) (s : Symbol) (ws : List Word) :
    Readable signed (.symbol s :: ws) ↔ Readable (!(Token.symbol s).endsOperand) ws := by
  simp [Readable, Legible, isNegative, token]

@[simp] theorem readable_identifier (signed : Bool) (name : String) (ws : List Word) :
    Readable signed (.identifier name :: ws) ↔ isIdentifier name = true ∧ Readable false ws := by
  simp [Readable, Legible, isNegative, token, Token.endsOperand]

@[simp] theorem readable_string (signed : Bool) (text : String) (ws : List Word) :
    Readable signed (.string text :: ws) ↔ Quotable text ∧ Readable false ws := by
  simp [Readable, Legible, isNegative, token, Token.endsOperand]

@[simp] theorem readable_number (x : Lexeme) (ws : List Word) :
    Readable true (.number x :: ws) ↔ Readable false ws := by
  simp [Readable, Legible, token, Token.endsOperand]

@[simp] theorem readable_coercion (signed : Bool) (c : Coercion) (ws : List Word) :
    Readable signed (.coercion c :: ws) ↔ Readable true ws := by
  simp [Readable, Legible, isNegative, token, Token.endsOperand]

theorem Readable.mono {signed : Bool} {ws : List Word} (h : Readable false ws) :
    Readable signed ws := by
  cases ws with
  | nil => trivial
  | cons w ws => exact ⟨h.1, fun hn => absurd (h.2.1 hn) (by decide), h.2.2⟩

/-- Words that can stand where an operand is expected, in front of anything without a sign. -/
def Operand (ws : List Word) : Prop :=
  ∀ rest, Readable false rest → Readable true (ws ++ rest)

/-- An operand in front of a symbol that closes it. -/
theorem Operand.close {ws rest : List Word} {s : Symbol} (h : Operand ws)
    (hs : (Token.symbol s).endsOperand = true) (hr : Readable false rest) :
    Readable true (ws ++ .symbol s :: rest) :=
  h _ (by simpa [hs] using hr)

theorem operand_enclose (e : Expr) {ws : List Word} (h : Operand ws) : Operand (e.enclose ws) := by
  intro rest hr
  unfold Expr.enclose
  split
  · exact h rest hr
  · simpa [Token.endsOperand] using h.close rfl hr

theorem isIdentifier_method (m : Method) : isIdentifier m.word = true := by
  cases m <;> rfl

theorem isIdentifier_coercion (c : Coercion) : isIdentifier c.word = true := by
  cases c <;> rfl

end Word

namespace Spelling
open Word

variable {sp : Spelling}

theorem operand_literal {l : Literal} (h : l.Meets .printable) : Operand [sp.literal l] := by
  intro rest hr
  cases l with
  | string s => exact (readable_string ..).mpr ⟨h, hr⟩
  | number d => exact (readable_number ..).mpr hr
  | bool b => cases b <;> exact (readable_identifier ..).mpr ⟨rfl, hr⟩
  | null => exact (readable_identifier ..).mpr ⟨rfl, hr⟩

mutual

theorem operand_expr : ∀ e : Expr, e.Meets .printable → Operand (sp.expr e)
  | .literal l, h => operand_literal h
  | .current, _ => fun rest hr => by simpa [expr, Token.endsOperand] using hr
  | .root, _ => fun rest hr => by simpa [expr, Token.endsOperand] using hr
  | .property target name, h => fun rest hr => by
    rw [expr, List.append_assoc]
    refine operand_enclose target (operand_expr target h.1) _ ?_
    simp [Token.endsOperand, show isIdentifier name = true from h.2, hr]
  | .element target index, h => fun rest hr => by
    have hi : Readable true (index.enclose (sp.expr index) ++ .symbol .bracketClose :: rest) :=
      (operand_enclose index (operand_expr index h.2)).close rfl hr
    rw [expr, List.append_assoc]
    refine operand_enclose target (operand_expr target h.1) _ ?_
    simpa [Token.endsOperand] using hi
  | .call target method args, h => fun rest hr => by
    have ha : Readable true (sp.arguments args ++ .symbol .parenClose :: rest) :=
      readable_arguments args h.2 hr
    rw [expr, List.append_assoc]
    refine operand_enclose target (operand_expr target h.1) _ ?_
    simpa [Token.endsOperand, isIdentifier_method] using ha
  | .coerce c arg, h => fun rest hr => by
    have ha : Readable true (arg.enclose (sp.expr arg) ++ .symbol .parenClose :: rest) :=
      (operand_enclose arg (operand_expr arg h)).close rfl hr
    simpa [expr, Token.endsOperand, isIdentifier_coercion] using ha
  | .unary op arg, h => fun rest hr => by
    have ha : Readable true (arg.enclose (sp.expr arg) ++ rest) :=
      operand_enclose arg (operand_expr arg h) rest hr
    cases op <;> simpa [expr, Token.endsOperand] using ha
  | .binary op lhs rhs, h => fun rest hr => by
    have hs : Readable true (rhs.enclose (sp.expr rhs) ++ rest) :=
      operand_enclose rhs (operand_expr rhs h.2) rest hr
    rw [expr, List.append_assoc]
    refine operand_enclose lhs (operand_expr lhs h.1) _ ?_
    cases op <;> simpa [BinaryOp.symbol, Token.endsOperand] using hs

theorem readable_arguments : ∀ es : List Expr, Expr.AllMeet .printable es →
    ∀ {rest}, Readable false rest →
      Readable true (sp.arguments es ++ .symbol .parenClose :: rest)
  | [], _, _, hr => by simpa [arguments, Token.endsOperand] using hr
  | e :: es, h, rest, hr => by
    rw [arguments, List.append_assoc]
    exact operand_enclose e (operand_expr e h.1) _ (readable_moreArguments es h.2 hr)

theorem readable_moreArguments : ∀ es : List Expr, Expr.AllMeet .printable es →
    ∀ {rest}, Readable false rest →
      Readable false (sp.moreArguments es ++ .symbol .parenClose :: rest)
  | [], _, _, hr => by simpa [moreArguments, Token.endsOperand] using hr
  | e :: es, h, rest, hr => by
    have ha := operand_enclose e (operand_expr e h.1) _ (readable_moreArguments es h.2 hr)
    simpa [moreArguments, Token.endsOperand] using ha

end

theorem readable_commas {α : Type} {word : α → Word} {as : List α}
    (h : ∀ a ∈ as, Operand [word a]) {rest : List Word} (hr : Readable false rest) :
    Readable false ((as.flatMap fun b => [.symbol .comma, word b]) ++ rest) := by
  induction as with
  | nil => exact hr
  | cons a as ih =>
    obtain ⟨ha, has⟩ := List.forall_mem_cons.mp h
    simpa [Token.endsOperand] using ha _ (ih has)

theorem operand_commaWords {α : Type} {word : α → Word} {as : List α}
    (h : ∀ a ∈ as, Operand [word a]) : Operand (commaWords word as) := by
  intro rest hr
  cases as with
  | nil => exact hr.mono
  | cons a as =>
    obtain ⟨ha, has⟩ := List.forall_mem_cons.mp h
    exact ha _ (readable_commas has hr)

theorem readable_bracketed {ws : List Word} (h : Operand ws) {rest : List Word}
    (hr : Readable false rest) : Readable false (bracketed ws ++ rest) := by
  have hc : Readable true (ws ++ .symbol .bracketClose :: rest) := h.close rfl hr
  simpa [bracketed, Token.endsOperand] using hc

theorem readable_enclosed {s : Symbol} (hs : (Token.symbol s).endsOperand = false)
    {ws : List Word} (h : Operand ws) {rest : List Word} (hr : Readable false rest) :
    Readable false (enclosed s ws ++ rest) := by
  refine readable_bracketed ?_ hr
  intro rest hr
  have hc : Readable true (ws ++ .symbol .parenClose :: rest) := h.close rfl hr
  simpa [hs] using hc

theorem operand_string {s : String} (h : Quotable s) : Operand [.string s] :=
  fun _ hr => (readable_string ..).mpr ⟨h, hr⟩

theorem operand_number (x : Lexeme) : Operand [.number x] :=
  fun _ hr => (readable_number ..).mpr hr

theorem operand_selector {s : Selector} (h : s.Meets .printable) : Operand [sp.selector s] := by
  cases s with
  | index i => exact operand_number _
  | name s => exact operand_string h

theorem operand_bound (i : Option Int) : Operand (sp.bound i) := by
  cases i with
  | none => exact fun _ hr => hr.mono
  | some i => exact operand_number _

theorem readable_member {name : String} (h : Quotable name) {rest : List Word}
    (hr : Readable false rest) : Readable false (memberWord name :: rest) := by
  unfold memberWord
  split
  next hn => exact (readable_identifier ..).mpr ⟨hn, hr⟩
  next => exact (readable_string ..).mpr ⟨h, hr⟩

theorem readable_target {s : Step} (h : s.Meets .printable) {rest : List Word}
    (hr : Readable false rest) : Readable false (sp.target s ++ rest) := by
  cases s with
  | root => simpa [target, Token.endsOperand] using hr
  | recurse => simpa [target, Token.endsOperand] using hr.mono
  | member name => exact readable_member h hr
  | wildcard => simpa [target, Token.endsOperand] using hr.mono
  | index i => exact readable_bracketed (operand_number _) hr
  | slice start stop =>
    refine readable_bracketed (fun rest hr => ?_) hr
    rw [List.append_assoc]
    refine operand_bound start _ ?_
    simpa [Token.endsOperand] using operand_bound stop _ hr
  | union selectors =>
    exact readable_bracketed (operand_commaWords fun s hs => operand_selector (h s hs)) hr
  | filter e => exact readable_enclosed rfl (operand_expr e h) hr
  | map e => exact readable_enclosed rfl (operand_expr e h) hr
  | computed e => exact readable_enclosed rfl (operand_expr e h) hr
  | tuple keys =>
    exact readable_bracketed (operand_commaWords fun k hk => operand_string (h k hk)) hr
  | record keys =>
    have hc : Readable true (commaWords Word.string keys ++ .symbol .braceClose :: rest) :=
      (operand_commaWords fun k hk => operand_string (h k hk)).close rfl hr
    simpa [target, Token.endsOperand] using hc
  | coerce c => exact (readable_coercion ..).mpr hr.mono

theorem readable_step {s : Step} (h : s.Meets .printable) {rest : List Word}
    (hr : Readable false rest) : Readable false (sp.step s ++ rest) := by
  have ht : Readable false (sp.target s ++ rest) := readable_target h hr
  cases s with
  | member name => simpa [step, Token.endsOperand] using ht.mono
  | wildcard => simpa [step, Token.endsOperand] using ht.mono
  | _ => exact ht

theorem readable_steps (ss : List Step) (h : ∀ s ∈ ss, s.Meets .printable) :
    Readable false (sp.steps ss) := by
  fun_induction sp.steps ss with
  | case1 => trivial
  | case2 s more ih =>
    obtain ⟨_, hs, hm⟩ := by simpa [List.forall_mem_cons] using h
    have ht : Readable false (sp.target s ++ sp.steps more) := readable_target hs (ih hm)
    simpa [Token.endsOperand] using ht.mono
  | case3 s more _ ih =>
    obtain ⟨hs, hm⟩ := List.forall_mem_cons.mp h
    exact readable_step hs (ih hm)

end Spelling
end PathQuery
