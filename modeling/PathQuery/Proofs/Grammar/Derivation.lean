import PathQuery.Step.Basic
import PathQuery.Token.Basic

/-! Derivations in the grammar of paths.
A derivation is a tree with one node for every production that it uses. Its leaves, read from left
to right, are the tokens that it derives, and it has a translation into an expression or into steps.
The grammar says nothing of how tokens are read: it has no order of choice and no final choice, and
its table of operators, its words and its translation of lists are its own.

    or      := and ('||' and)*                     level 0
    and     := cmp ('&&' cmp)*                     level 1
    cmp     := sum (cmpop sum)?                    level 2
    sum     := product (('+' | '-') product)*      level 3
    product := unary (('*' | '/') unary)*          level 4
    unary   := '-' unary | '!' unary | '!(' or ')' | primary accessor*
    accessor := '.' ident | '.' method '(' (or (',' or)*)? ')' | '[' or ']'
    primary := '@' | '$' | literal | coercion '(' or ')' | '(' or ')'
    path    := '$' segment* eof
    segment := '.' member | '..' member | '..' group | '..' | group | '<' coercion '>'
    member  := ident | string | '*'
    group   := '[' body ']' | '{' string (',' string)* '}'
    body    := '?(' or ')' | '!(' or ')' | '(' or ')' | '*' | position? ':' position?
             | (position | string) (',' (position | string))*  -/
namespace PathQuery

/-- The level of the chains that an operator joins, from `||`, which binds loosest. -/
def BinaryOp.precedence : BinaryOp → Nat
  | .or => 0
  | .and => 1
  | .equal | .strictEqual | .notEqual | .strictNotEqual => 2
  | .greater | .less | .greaterEqual | .lessEqual => 2
  | .add | .sub => 3
  | .mul | .div => 4

/-- How an operator is written between its operands. -/
def BinaryOp.symbol : BinaryOp → Symbol
  | .or => .or
  | .and => .and
  | .equal => .equal
  | .strictEqual => .strictEqual
  | .notEqual => .notEqual
  | .strictNotEqual => .strictNotEqual
  | .greater => .greater
  | .less => .less
  | .greaterEqual => .greaterEqual
  | .lessEqual => .lessEqual
  | .add => .plus
  | .sub => .minus
  | .mul => .star
  | .div => .slash

/-- The word that asks for a coercion. -/
def Coercion.word : Coercion → String
  | .string => "String"
  | .number => "Number"
  | .float => "float"
  | .int => "int"

/-- The word that calls a method. -/
def Method.word : Method → String
  | .toLowerCase => "toLowerCase"
  | .toUpperCase => "toUpperCase"
  | .includes => "includes"
  | .indexOf => "indexOf"
  | .startsWith => "startsWith"
  | .endsWith => "endsWith"

def Literal.token : Literal → Token
  | .string s => .string s
  | .number d => .number d
  | .bool true => .identifier "true"
  | .bool false => .identifier "false"
  | .null => .identifier "null"

namespace Grammar

/-! ## Expressions -/

mutual

/-- The nonterminals `or`, `and`, `cmp`, `sum` and `product` as levels, and `unary` as level 5. -/
inductive Chain : Nat → Type where
  | operands {n : Nat} (h : n < 5) (first : Chain (n + 1)) (more : Operators n) : Chain n
  | unary (u : Unary) : Chain 5

/-- The operators of a level with their right operands; of comparisons there is at most one. -/
inductive Operators : Nat → Type where
  | nil {n : Nat} : Operators n
  | comparison {n : Nat} (op : BinaryOp) (h : op.precedence = n) (hn : n = 2)
      (operand : Chain (n + 1)) : Operators n
  | cons {n : Nat} (op : BinaryOp) (h : op.precedence = n) (hn : n ≠ 2)
      (operand : Chain (n + 1)) (more : Operators n) : Operators n

inductive Unary : Type where
  | minus (operand : Unary)
  | not (operand : Unary)
  | negated (e : Chain 0)
  | access (target : Primary) (accessors : Accessors)

inductive Primary : Type where
  | current
  | root
  | literal (l : Literal)
  | coerce (c : Coercion) (arg : Chain 0)
  | enclosed (e : Chain 0)

inductive Accessors : Type where
  | nil
  | property (name : String) (more : Accessors)
  | call (method : Method) (args : Arguments) (more : Accessors)
  | element (index : Chain 0) (more : Accessors)

inductive Arguments : Type where
  | none
  | some (first : Chain 0) (more : MoreArguments)

inductive MoreArguments : Type where
  | nil
  | cons (next : Chain 0) (more : MoreArguments)

end

mutual

def Chain.tokens {n : Nat} : Chain n → List Token
  | .operands _ first more => first.tokens ++ more.tokens
  | .unary u => u.tokens

def Operators.tokens {n : Nat} : Operators n → List Token
  | .nil => []
  | .comparison op _ _ operand => .symbol op.symbol :: operand.tokens
  | .cons op _ _ operand more => .symbol op.symbol :: (operand.tokens ++ more.tokens)

def Unary.tokens : Unary → List Token
  | .minus operand => .symbol .minus :: operand.tokens
  | .not operand => .symbol .not :: operand.tokens
  | .negated e => .symbol .mapOpen :: (e.tokens ++ [.symbol .parenClose])
  | .access target accessors => target.tokens ++ accessors.tokens

def Primary.tokens : Primary → List Token
  | .current => [.symbol .current]
  | .root => [.symbol .root]
  | .literal l => [l.token]
  | .coerce c arg =>
    .identifier c.word :: .symbol .parenOpen :: (arg.tokens ++ [.symbol .parenClose])
  | .enclosed e => .symbol .parenOpen :: (e.tokens ++ [.symbol .parenClose])

def Accessors.tokens : Accessors → List Token
  | .nil => []
  | .property name more => .symbol .dot :: .identifier name :: more.tokens
  | .call method args more =>
    .symbol .dot :: .identifier method.word :: .symbol .parenOpen ::
      (args.tokens ++ .symbol .parenClose :: more.tokens)
  | .element index more =>
    .symbol .bracketOpen :: (index.tokens ++ .symbol .bracketClose :: more.tokens)

def Arguments.tokens : Arguments → List Token
  | .none => []
  | .some first more => first.tokens ++ more.tokens

def MoreArguments.tokens : MoreArguments → List Token
  | .nil => []
  | .cons next more => .symbol .comma :: (next.tokens ++ more.tokens)

end

mutual

/-- The expression that a derivation stands for; operators of one level associate to the left. -/
def Chain.expr {n : Nat} : Chain n → Expr
  | .operands _ first more => more.apply first.expr
  | .unary u => u.expr

def Operators.apply {n : Nat} (lhs : Expr) : Operators n → Expr
  | .nil => lhs
  | .comparison op _ _ operand => .binary op lhs operand.expr
  | .cons op _ _ operand more => more.apply (.binary op lhs operand.expr)

def Unary.expr : Unary → Expr
  | .minus operand => .unary .neg operand.expr
  | .not operand => .unary .not operand.expr
  | .negated e => .unary .not e.expr
  | .access target accessors => accessors.apply target.expr

def Primary.expr : Primary → Expr
  | .current => .current
  | .root => .root
  | .literal l => .literal l
  | .coerce c arg => .coerce c arg.expr
  | .enclosed e => e.expr

def Accessors.apply (target : Expr) : Accessors → Expr
  | .nil => target
  | .property name more => more.apply (.property target name)
  | .call method args more => more.apply (.call target method args.exprs)
  | .element index more => more.apply (.element target index.expr)

def Arguments.exprs : Arguments → List Expr
  | .none => []
  | .some first more => first.expr :: more.exprs

def MoreArguments.exprs : MoreArguments → List Expr
  | .nil => []
  | .cons next more => next.expr :: more.exprs

end

/-- An expression of a level is one of every lower level. -/
theorem exists_chain_of_le {n m : Nat} (h : n ≤ m) (hm : m ≤ 5) (c : Chain m) :
    ∃ d : Chain n, d.tokens = c.tokens ∧ d.expr = c.expr := by
  induction h with
  | refl => exact ⟨c, rfl, rfl⟩
  | @step m h ih =>
    obtain ⟨d, ht, he⟩ := ih (Nat.le_of_lt hm) (.operands hm c .nil)
    exact ⟨d, by simpa [Chain.tokens, Operators.tokens] using ht, he⟩

theorem exists_chain_of_unary {n : Nat} (h : n ≤ 5) (u : Unary) :
    ∃ c : Chain n, c.tokens = u.tokens ∧ c.expr = u.expr :=
  exists_chain_of_le h (Nat.le_refl 5) (.unary u)

theorem exists_chain_of_primary {n : Nat} (h : n ≤ 5) (p : Primary) :
    ∃ c : Chain n, c.tokens = p.tokens ∧ c.expr = p.expr := by
  obtain ⟨c, ht, he⟩ := exists_chain_of_unary h (.access p .nil)
  exact ⟨c, by simpa [Unary.tokens, Accessors.tokens] using ht, he⟩

/-- An operator with one operand is a chain of operators. -/
theorem exists_operators_of_chain {n : Nat} {op : BinaryOp} (h : op.precedence = n)
    (operand : Chain (n + 1)) : ∃ more : Operators n,
      more.tokens = .symbol op.symbol :: operand.tokens ∧
        ∀ lhs, more.apply lhs = .binary op lhs operand.expr := by
  by_cases hn : n = 2
  · exact ⟨.comparison op h hn operand, rfl, fun _ => rfl⟩
  · exact ⟨.cons op h hn operand .nil, by simp [Operators.tokens], fun _ => rfl⟩

/-! ## Paths -/

/-- A number that can be an index or a bound: a whole one. -/
@[ext]
structure Position where
  value : FiniteDouble
  whole : Double.one ∣ value.units

/-- The integer that a position denotes, kept within 64 bits. -/
def Position.index (p : Position) : Int :=
  max (-9223372036854775808) (min (p.value.signed / Double.one) 9223372036854775807)

def Position.token (p : Position) : Token := .number (.finite p.value)

inductive Item where
  | position (p : Position)
  | name (s : String)

namespace Item

def token : Item → Token
  | .position p => p.token
  | .name s => .string s

def selector : Item → Selector
  | .position p => .index p.index
  | .name s => .name s

/-- The names of a list that has nothing but names. -/
def names? : List Item → Option (List String)
  | [] => some []
  | .name s :: items => (names? items).map (s :: ·)
  | .position _ :: _ => none

/-- What a list selects: a position alone is an index, names alone make a tuple, and any other list
is a union. -/
def listStep : Item → List Item → Step
  | .position p, [] => .index p.index
  | first, more =>
    match names? (first :: more) with
    | some keys => .tuple keys
    | none => .union ((first :: more).map selector)

end Item

inductive Member where
  | name (s : String)
  | quoted (s : String)
  | star

namespace Member

def token : Member → Token
  | .name s => .identifier s
  | .quoted s => .string s
  | .star => .symbol .star

def step : Member → Step
  | .name s => .member s
  | .quoted s => .member s
  | .star => .wildcard

end Member

inductive Body where
  | filter (e : Chain 0)
  | map (e : Chain 0)
  | computed (e : Chain 0)
  | star
  | slice (start stop : Option Position)
  | items (first : Item) (more : List Item)

/-- Tokens with commas between them. -/
def commaTokens {α : Type} (token : α → Token) (first : α) (more : List α) : List Token :=
  token first :: more.flatMap fun a => [.symbol .comma, token a]

namespace Body

def tokens : Body → List Token
  | .filter e => .symbol .filterOpen :: (e.tokens ++ [.symbol .parenClose])
  | .map e => .symbol .mapOpen :: (e.tokens ++ [.symbol .parenClose])
  | .computed e => .symbol .parenOpen :: (e.tokens ++ [.symbol .parenClose])
  | .star => [.symbol .star]
  | .slice start stop =>
    start.toList.map Position.token ++ .symbol .colon :: stop.toList.map Position.token
  | .items first more => commaTokens Item.token first more

def step : Body → Step
  | .filter e => .filter e.expr
  | .map e => .map e.expr
  | .computed e => .computed e.expr
  | .star => .wildcard
  | .slice start stop => .slice (start.map Position.index) (stop.map Position.index)
  | .items first more => first.listStep more

end Body

inductive Group where
  | bracket (b : Body)
  | brace (first : String) (more : List String)

namespace Group

def tokens : Group → List Token
  | .bracket b => .symbol .bracketOpen :: (b.tokens ++ [.symbol .bracketClose])
  | .brace first more =>
    .symbol .braceOpen :: (commaTokens Token.string first more ++ [.symbol .braceClose])

def step : Group → Step
  | .bracket b => b.step
  | .brace first more => .record (first :: more)

end Group

inductive Segment where
  | dot (m : Member)
  | descendMember (m : Member)
  | descendGroup (g : Group)
  | descendNothing
  | group (g : Group)
  | coercion (c : Coercion)

namespace Segment

def tokens : Segment → List Token
  | .dot m => [.symbol .dot, m.token]
  | .descendMember m => [.symbol .recurse, m.token]
  | .descendGroup g => .symbol .recurse :: g.tokens
  | .descendNothing => [.symbol .recurse]
  | .group g => g.tokens
  | .coercion c => [.coercion c.word]

def steps : Segment → List Step
  | .dot m => [m.step]
  | .descendMember m => [.recurse, m.step]
  | .descendGroup g => [.recurse, g.step]
  | .descendNothing => []
  | .group g => [g.step]
  | .coercion c => [.coerce c]

end Segment

/-- Whether something that `..` can apply to starts with a token. -/
def startsTarget : Token → Bool
  | .identifier _ => true
  | .string _ => true
  | .symbol .star => true
  | .symbol .bracketOpen => true
  | .symbol .braceOpen => true
  | _ => false

/-- A `..` that applies to nothing is allowed only where nothing follows that it could apply to. -/
def Segment.Ends (s : Segment) (rest : List Token) : Prop :=
  s = .descendNothing → ∀ t ∈ rest.head?, startsTarget t = false

def BareAllowed : List Segment → Prop
  | [] => True
  | s :: more => s.Ends (more.flatMap Segment.tokens ++ [.finish]) ∧ BareAllowed more

/-- A path in which every `..` applies to something. -/
theorem bareAllowed_of_forall {segments : List Segment} (h : ∀ s ∈ segments, s ≠ .descendNothing) :
    BareAllowed segments := by
  induction segments with
  | nil => trivial
  | cons s segments ih =>
    obtain ⟨hs, hm⟩ := List.forall_mem_cons.mp h
    exact ⟨fun he => absurd he hs, ih hm⟩

/-- A derivation of a path. -/
structure Path where
  segments : List Segment
  bare : BareAllowed segments

namespace Path

def tokens (p : Path) : List Token :=
  .symbol .root :: (p.segments.flatMap Segment.tokens ++ [.finish])

def steps (p : Path) : List Step := .root :: p.segments.flatMap Segment.steps

end Path
end Grammar
end PathQuery
