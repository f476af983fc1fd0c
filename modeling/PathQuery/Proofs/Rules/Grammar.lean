import PathQuery.Proofs.Rules.Basic
import PathQuery.Step.Parser

/-! The grammar of paths as rules.
Each level of expressions is a rule that calls rules of other levels. A call has to lead on: to
fewer tokens, or on the same tokens to a level that binds tighter. Every call is watched, and one
that does not lead on fails as astray. -/
namespace PathQuery

/-! ## Expressions -/

/-- The levels of expressions, from the one that binds loosest. -/
inductive Level where
  | or | and | comparison | sum | product | unary | access | operand

/-- How tightly a level binds. -/
def Level.rank : Level → Nat
  | .or => 0
  | .and => 1
  | .comparison => 2
  | .sum => 3
  | .product => 4
  | .unary => 5
  | .access => 6
  | .operand => 7

theorem Level.rank_le (level : Level) : level.rank ≤ 7 := by
  cases level <;> decide

def Token.name? : Token → Option String
  | .identifier name => some name
  | _ => none

def Token.number? : Token → Option Double
  | .number d => some d
  | _ => none

/-- What follows a target. -/
inductive Suffix where
  | property (name : String)
  | call (m : Method) (args : List Expr)
  | element (index : Expr)

def Suffix.apply (target : Expr) : Suffix → Expr
  | .property name => .property target name
  | .call m args => .call target m args
  | .element index => .element target index

namespace Rule

/-- An operator of level `n` with its right operand. -/
def operation (n : Nat) (operand : Rule Expr) : Rule (BinaryOp × Expr) := do
  let op ← accept (BinaryOp.ofToken? n)
  let rhs ← commit operand
  return (op, rhs)

def chain (n : Nat) (operand : Rule Expr) : Rule Expr := do
  let first ← operand
  let more ← repeated (operation n operand)
  return more.foldl (fun lhs o => .binary o.1 lhs o.2) first

def comparison (operand : Rule Expr) : Rule Expr := do
  let lhs ← operand
  match ← optional (operation BinaryOp.comparisonLevel operand) with
  | some (op, rhs) => return .binary op lhs rhs
  | none => return lhs

def arguments (inner : Rule Expr) : Rule (List Expr) :=
  enclosed .parenOpen (separated inner <|> pure []) .parenClose

/-- A name, and the arguments if it is that of a method. -/
def access (inner : Rule Expr) : Rule Suffix := do
  let name ← accept Token.name?
  match ← optional (arguments inner) with
  | none => return .property name
  | some args =>
    match Method.ofName? name with
    | some m => return .call m args
    | none => fail .identifier

def suffix (inner : Rule Expr) : Rule Suffix :=
  (do symbol .dot; commit (access inner)) <|>
  .element <$> enclosed .bracketOpen inner .bracketClose

/-- A literal that is a word, or a coercion with its argument. -/
def named (inner : Rule Expr) : Rule Expr := do
  let name ← accept Token.name?
  match Literal.ofName? name, Coercion.ofName? name with
  | some l, _ => return .literal l
  | none, some c => .coerce c <$> commit (enclosed .parenOpen inner .parenClose)
  | none, none => fail .identifier

/-- The rule of a level, with the rules that it calls. -/
def ofLevel (call : Level → Rule Expr) : Level → Rule Expr
  | .or => chain 0 (call .and)
  | .and => chain 1 (call .comparison)
  | .comparison => comparison (call .sum)
  | .sum => chain 3 (call .product)
  | .product => chain 4 (call .unary)
  | .unary =>
    (do symbol .minus; .unary .neg <$> commit (call .unary)) <|>
    (do symbol .not; .unary .not <$> commit (call .unary)) <|>
    .unary .not <$> enclosed .mapOpen (call .or) .parenClose <|>
    call .access
  | .access => do
    let target ← call .operand
    let suffixes ← repeated (suffix (call .or))
    return suffixes.foldl Suffix.apply target
  | .operand =>
    (do symbol .current; return .current) <|>
    (do symbol .root; return .root) <|>
    (fun d => .literal (.number d)) <$> accept Token.number? <|>
    (fun s => .literal (.string s)) <$> accept Token.key? <|>
    named (call .or) <|>
    enclosed .parenOpen (call .or) .parenClose

/-- A call leads on: to fewer tokens, or on the same tokens to a level that binds tighter. -/
def LeadsOn (level : Level) (ts : List Token) (level' : Level) (ts' : List Token) : Prop :=
  ts'.length < ts.length ∨ ts' = ts ∧ level.rank < level'.rank

instance (level : Level) (ts : List Token) (level' : Level) (ts' : List Token) :
    Decidable (LeadsOn level ts level' ts') := inferInstanceAs (Decidable (_ ∨ _))

/-- An expression of a level. A call that does not lead on is not made. -/
def expression (level : Level) : Rule Expr := fun ts =>
  ofLevel (fun level' ts' =>
    if _h : LeadsOn level ts level' ts' then expression level' ts' else .error .astray) level ts
termination_by ts => (ts.length, 7 - level.rank)
decreasing_by
  rcases _h with h | ⟨rfl, h⟩
  · exact .left _ _ h
  · have := level'.rank_le
    exact .right _ (by omega)

/-- Expressions as a level calls them on some tokens, but for calls that do not lead on, which go
to `other`. -/
def divert (other : Level → Rule Expr) (level : Level) (ts : List Token) (level' : Level) :
    Rule Expr := fun ts' =>
  if LeadsOn level ts level' ts' then expression level' ts' else other level' ts'

theorem expression_apply (level : Level) (ts : List Token) :
    expression level ts = ofLevel (divert (fun _ _ => .error .astray) level ts) level ts := by
  rw [expression]
  rfl

/-! ## Paths -/

def member : Rule Step :=
  .member <$> accept Token.name? <|>
  .member <$> accept Token.key? <|>
  (do symbol .star; return .wildcard)

def slice : Rule Step := do
  let start ← optional (accept Token.index?)
  symbol .colon
  let stop ← optional (accept Token.index?)
  return .slice start stop

def selector : Rule Selector :=
  .index <$> accept Token.index? <|> .name <$> accept Token.key?

def bracketBody : Rule Step :=
  .filter <$> enclosed .filterOpen (expression .or) .parenClose <|>
  .map <$> enclosed .mapOpen (expression .or) .parenClose <|>
  .computed <$> enclosed .parenOpen (expression .or) .parenClose <|>
  (do symbol .star; return .wildcard) <|>
  slice <|>
  Step.ofSelectors <$> separated selector

def bracket : Rule Step := enclosed .bracketOpen bracketBody .bracketClose

def brace : Rule Step :=
  .record <$> enclosed .braceOpen (separated (accept Token.key?)) .braceClose

def coercion : Rule Step := do
  let name ← accept fun t => match t with | .coercion name => some name | _ => none
  match Coercion.ofName? name with
  | some c => return .coerce c
  | none => fail .coercion

/-- Where nothing follows that it could apply to, `..` is no step. -/
def recursion : Rule (List Step) := do
  symbol .recurse
  match ← optional (member <|> bracket <|> brace) with
  | some step => return [.recurse, step]
  | none => return []

def segment : Rule (List Step) :=
  (do symbol .dot; (fun s => [s]) <$> commit member) <|>
  recursion <|>
  (fun s => [s]) <$> bracket <|>
  (fun s => [s]) <$> brace <|>
  (fun s => [s]) <$> coercion

def finish : Rule Unit := accept fun t => if t = .finish then some () else none

def path : Rule (List Step) := do
  symbol .root
  let segments ← repeated segment
  finish
  return .root :: segments.flatten

end Rule
end PathQuery
