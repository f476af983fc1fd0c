import PathQuery.Proofs.Grammar.Derivation
import PathQuery.Proofs.Printing.Words

/-! Printing steps as the text of a path.
Tokens have a blank between them, and a part of an expression stands in parentheses unless it is one
token. How a number is written is a parameter. -/
namespace PathQuery

/-- What numbers and positions are written as. -/
structure Spelling where
  numeral : Double → Lexeme
  position : Int → Lexeme

/-! ## Words -/

/-- Whether an expression is one token. -/
def Expr.isAtom : Expr → Bool
  | .literal _ => true
  | .current => true
  | .root => true
  | _ => false

/-- The words of a part of an expression. -/
def Expr.enclose (e : Expr) (ws : List Word) : List Word :=
  if e.isAtom then ws else .symbol .parenOpen :: (ws ++ [.symbol .parenClose])

/-- A member is written bare where its name allows it. -/
def memberWord (name : String) : Word :=
  if isIdentifier name then .identifier name else .string name

/-- Words with commas between them. -/
def commaWords {α : Type} (word : α → Word) : List α → List Word
  | [] => []
  | a :: more => word a :: more.flatMap fun b => [.symbol .comma, word b]

/-- Words in brackets. -/
def bracketed (ws : List Word) : List Word :=
  .symbol .bracketOpen :: (ws ++ [.symbol .bracketClose])

/-- An expression in brackets, after a symbol that opens a parenthesis. -/
def enclosed (s : Symbol) (ws : List Word) : List Word :=
  bracketed (.symbol s :: (ws ++ [.symbol .parenClose]))

namespace Spelling

variable (sp : Spelling)

def literal : Literal → Word
  | .string s => .string s
  | .number d => .number (sp.numeral d)
  | .bool true => .identifier "true"
  | .bool false => .identifier "false"
  | .null => .identifier "null"

mutual

def expr : Expr → List Word
  | .literal l => [sp.literal l]
  | .current => [.symbol .current]
  | .root => [.symbol .root]
  | .property target name =>
    target.enclose (expr target) ++ [.symbol .dot, .identifier name]
  | .element target index =>
    target.enclose (expr target) ++
      .symbol .bracketOpen :: (index.enclose (expr index) ++ [.symbol .bracketClose])
  | .call target method args =>
    target.enclose (expr target) ++ .symbol .dot :: .identifier method.word ::
      .symbol .parenOpen :: (arguments args ++ [.symbol .parenClose])
  | .coerce c arg =>
    .identifier c.word :: .symbol .parenOpen :: (arg.enclose (expr arg) ++ [.symbol .parenClose])
  | .unary .neg arg => .symbol .minus :: arg.enclose (expr arg)
  | .unary .not arg => .symbol .not :: arg.enclose (expr arg)
  | .binary op lhs rhs =>
    lhs.enclose (expr lhs) ++ .symbol op.symbol :: rhs.enclose (expr rhs)

def arguments : List Expr → List Word
  | [] => []
  | e :: es => e.enclose (expr e) ++ moreArguments es

def moreArguments : List Expr → List Word
  | [] => []
  | e :: es => .symbol .comma :: (e.enclose (expr e) ++ moreArguments es)

end

def selector : Selector → Word
  | .index i => .number (sp.position i)
  | .name s => .string s

/-- The words of a bound, if there is one. -/
def bound (i : Option Int) : List Word := i.toList.map fun i => .number (sp.position i)

/-- A step as it stands after `..`. -/
def target : Step → List Word
  | .root => [.symbol .root]
  | .recurse => [.symbol .recurse]
  | .member name => [memberWord name]
  | .wildcard => [.symbol .star]
  | .index i => bracketed [.number (sp.position i)]
  | .slice start stop => bracketed (sp.bound start ++ .symbol .colon :: sp.bound stop)
  | .union selectors => bracketed (commaWords sp.selector selectors)
  | .filter e => enclosed .filterOpen (sp.expr e)
  | .map e => enclosed .mapOpen (sp.expr e)
  | .computed e => enclosed .parenOpen (sp.expr e)
  | .tuple keys => bracketed (commaWords Word.string keys)
  | .record keys =>
    .symbol .braceOpen :: (commaWords Word.string keys ++ [.symbol .braceClose])
  | .coerce c => [.coercion c]

/-- A step where no `..` precedes it. -/
def step : Step → List Word
  | .member name => .symbol .dot :: sp.target (.member name)
  | .wildcard => .symbol .dot :: sp.target .wildcard
  | s => sp.target s

def steps : List Step → List Word
  | [] => []
  | .recurse :: s :: more => .symbol .recurse :: (sp.target s ++ steps more)
  | s :: more => sp.step s ++ steps more

/-- The text of steps. -/
def print (ss : List Step) : String := String.ofList (Word.spaced (sp.steps ss))

end Spelling

/-! ## What can be printed -/

/-- Conditions on the texts, property names, numbers and positions that steps are made of. -/
structure Leaves where
  text : String → Prop
  name : String → Prop
  number : Double → Prop
  position : Int → Prop

def Literal.Meets (P : Leaves) : Literal → Prop
  | .string s => P.text s
  | .number d => P.number d
  | _ => True

mutual

def Expr.Meets (P : Leaves) : Expr → Prop
  | .literal l => l.Meets P
  | .current => True
  | .root => True
  | .property target name => target.Meets P ∧ P.name name
  | .element target index => target.Meets P ∧ index.Meets P
  | .call target _ args => target.Meets P ∧ Expr.AllMeet P args
  | .coerce _ arg => arg.Meets P
  | .unary _ arg => arg.Meets P
  | .binary _ lhs rhs => lhs.Meets P ∧ rhs.Meets P

def Expr.AllMeet (P : Leaves) : List Expr → Prop
  | [] => True
  | e :: es => e.Meets P ∧ Expr.AllMeet P es

end

def Selector.Meets (P : Leaves) : Selector → Prop
  | .index i => P.position i
  | .name s => P.text s

def Step.Meets (P : Leaves) : Step → Prop
  | .member name => P.text name
  | .index i => P.position i
  | .slice start stop => (∀ i ∈ start, P.position i) ∧ ∀ i ∈ stop, P.position i
  | .union selectors => ∀ s ∈ selectors, s.Meets P
  | .filter e => e.Meets P
  | .map e => e.Meets P
  | .computed e => e.Meets P
  | .tuple keys => ∀ k ∈ keys, P.text k
  | .record keys => ∀ k ∈ keys, P.text k
  | _ => True

/-- Texts have a quote to stand in, property names are identifiers, numbers are values of lexemes,
and so are positions once they are kept within 64 bits. -/
def Leaves.printable : Leaves where
  text := Quotable
  name s := isIdentifier s = true
  number d := ∃ x : Lexeme, x.value = d
  position i := ∃ x : Lexeme, x.value.toInt64 = i

/-- A spelling has a lexeme of the right value for every number, and for every position one of a
whole number that is read as this position. -/
def Spelling.correct (sp : Spelling) : Leaves where
  text _ := True
  name _ := True
  number d := (sp.numeral d).value = d
  position i := (sp.position i).value.isIntegral = true ∧ (sp.position i).value.toInt64 = i

/-- One condition on leaves implies another. -/
structure Leaves.Implies (P Q : Leaves) : Prop where
  text : ∀ s, P.text s → Q.text s
  name : ∀ s, P.name s → Q.name s
  number : ∀ d, P.number d → Q.number d
  position : ∀ i, P.position i → Q.position i

variable {P Q : Leaves}

theorem Literal.Meets.mono (hi : P.Implies Q) {l : Literal} (h : l.Meets P) : l.Meets Q := by
  cases l with
  | string s => exact hi.text s h
  | number d => exact hi.number d h
  | _ => trivial

mutual

theorem Expr.Meets.mono (hi : P.Implies Q) : ∀ e : Expr, e.Meets P → e.Meets Q
  | .literal _, h => Literal.Meets.mono hi h
  | .current, _ => trivial
  | .root, _ => trivial
  | .property target name, h => ⟨Expr.Meets.mono hi target h.1, hi.name name h.2⟩
  | .element target index, h => ⟨Expr.Meets.mono hi target h.1, Expr.Meets.mono hi index h.2⟩
  | .call target _ args, h => ⟨Expr.Meets.mono hi target h.1, Expr.AllMeet.mono hi args h.2⟩
  | .coerce _ arg, h => Expr.Meets.mono hi arg h
  | .unary _ arg, h => Expr.Meets.mono hi arg h
  | .binary _ lhs rhs, h => ⟨Expr.Meets.mono hi lhs h.1, Expr.Meets.mono hi rhs h.2⟩

theorem Expr.AllMeet.mono (hi : P.Implies Q) :
    ∀ es : List Expr, Expr.AllMeet P es → Expr.AllMeet Q es
  | [], _ => trivial
  | e :: es, h => ⟨Expr.Meets.mono hi e h.1, Expr.AllMeet.mono hi es h.2⟩

end

theorem Selector.Meets.mono (hi : P.Implies Q) {s : Selector} (h : s.Meets P) : s.Meets Q := by
  cases s with
  | index i => exact hi.position i h
  | name s => exact hi.text s h

theorem Step.Meets.mono (hi : P.Implies Q) {s : Step} (h : s.Meets P) : s.Meets Q := by
  cases s with
  | member name => exact hi.text name h
  | index i => exact hi.position i h
  | slice start stop =>
    exact ⟨fun i hm => hi.position i (h.1 i hm), fun i hm => hi.position i (h.2 i hm)⟩
  | union selectors => exact fun s hs => Selector.Meets.mono hi (h s hs)
  | filter e => exact Expr.Meets.mono hi e h
  | map e => exact Expr.Meets.mono hi e h
  | computed e => exact Expr.Meets.mono hi e h
  | tuple keys => exact fun k hk => hi.text k (h k hk)
  | record keys => exact fun k hk => hi.text k (h k hk)
  | _ => trivial

/-! ## Well-formed steps -/

/-- Whether a step can follow `..`. -/
def Step.isTarget : Step → Bool
  | .root => false
  | .recurse => false
  | .coerce _ => false
  | _ => true

/-- Steps with lists have something to list; a union lists a position and something else. -/
def Step.Filled : Step → Prop
  | .union selectors => 2 ≤ selectors.length ∧ ∃ i, .index i ∈ selectors
  | .tuple keys => keys ≠ []
  | .record keys => keys ≠ []
  | _ => True

/-- Steps that can stand after `$`. -/
structure Step.Following (more : List Step) : Prop where
  no_root : .root ∉ more
  recurse : ∀ before after, more = before ++ .recurse :: after →
    ∃ s ∈ after.head?, s.isTarget = true
  filled : ∀ s ∈ more, s.Filled

theorem Step.Following.tail {s : Step} {more : List Step} (h : Following (s :: more)) :
    Following more where
  no_root hm := h.no_root (List.mem_cons_of_mem s hm)
  recurse before after hm := h.recurse (s :: before) after (by rw [hm]; rfl)
  filled t ht := h.filled t (List.mem_cons_of_mem s ht)

theorem Step.following_nil : Following [] := ⟨by simp, by simp, by simp⟩

theorem Step.following_cons {s : Step} {more : List Step} : Following (s :: more) ↔
    s ≠ .root ∧ (s = .recurse → ∃ t ∈ more.head?, t.isTarget = true) ∧ s.Filled ∧
      Following more := by
  constructor
  · intro h
    refine ⟨?_, ?_, h.filled s (by simp), h.tail⟩
    · rintro rfl
      exact h.no_root (by simp)
    · rintro rfl
      exact h.recurse [] more rfl
  · rintro ⟨hroot, hrecurse, hfilled, h⟩
    refine ⟨by simpa [Ne.symm hroot] using h.no_root, ?_, List.forall_mem_cons.mpr
      ⟨hfilled, h.filled⟩⟩
    intro before after hmore
    cases before with
    | nil =>
      cases hmore
      exact hrecurse rfl
    | cons t before =>
      cases hmore
      exact h.recurse before after rfl

/-- Behind `..` there is a step, which can stand there. -/
theorem Step.following_recurse {more : List Step} : Following (.recurse :: more) ↔
    ∃ s after, more = s :: after ∧ s.isTarget = true ∧ s.Filled ∧ Following after := by
  rw [following_cons]
  constructor
  · rintro ⟨_, hrecurse, _, h⟩
    obtain ⟨s, hs, ht⟩ := hrecurse rfl
    obtain ⟨after, rfl⟩ : ∃ after, more = s :: after := by
      cases more with
      | nil => cases hs
      | cons t after =>
        cases hs
        exact ⟨after, rfl⟩
    obtain ⟨_, _, hfilled, hafter⟩ := following_cons.mp h
    exact ⟨s, after, rfl, ht, hfilled, hafter⟩
  · rintro ⟨s, after, rfl, ht, hfilled, h⟩
    refine ⟨by simp, fun _ => ⟨s, rfl, ht⟩, trivial, following_cons.mpr ⟨?_, ?_, hfilled, h⟩⟩
    · rintro rfl
      cases ht
    · rintro rfl
      cases ht

/-- Steps that start with `$` and can be written after it. -/
def Step.WellFormed (ss : List Step) : Prop := ∃ more, ss = .root :: more ∧ Following more

end PathQuery
