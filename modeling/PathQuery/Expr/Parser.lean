import PathQuery.Expr.Basic
import PathQuery.Token.Reading

/-! Reading expressions from tokens.
Binary operators have levels, from `||` which binds loosest to `*` and `/`; operands are at the next
level, and operators of one level associate to the left, but a comparison is not an operand of
another one without parentheses. Below the binary operators come signs and negations, then property
accesses, calls and elements, and then the primary expressions. -/
namespace PathQuery

/-- How tightly an operator binds, from 0 to 4. -/
def BinaryOp.level : BinaryOp → Nat
  | .or => 0
  | .and => 1
  | .add | .sub => 3
  | .mul | .div => 4
  | _ => 2

/-- The level of comparisons. -/
def BinaryOp.comparisonLevel : Nat := 2

/-- The binary operator that a symbol stands for. -/
def BinaryOp.ofSymbol? : Symbol → Option BinaryOp
  | .or => some .or
  | .and => some .and
  | .equal => some .equal
  | .strictEqual => some .strictEqual
  | .notEqual => some .notEqual
  | .strictNotEqual => some .strictNotEqual
  | .greater => some .greater
  | .less => some .less
  | .greaterEqual => some .greaterEqual
  | .lessEqual => some .lessEqual
  | .plus => some .add
  | .minus => some .sub
  | .star => some .mul
  | .slash => some .div
  | _ => none

/-- The binary operator of the given level that a token stands for. -/
def BinaryOp.ofToken? (level : Nat) : Token → Option BinaryOp
  | .symbol s => (ofSymbol? s).filter fun op => op.level = level
  | _ => none

/-- The literals that are written as words. -/
def Literal.ofName? (s : String) : Option Literal :=
  if s = "true" then some (.bool true)
  else if s = "false" then some (.bool false)
  else if s = "null" then some .null
  else none

/-- Whether an expression can start with a token. -/
def Expr.startsWith : Token → Bool
  | .identifier _ => true
  | .string _ => true
  | .number _ => true
  | .symbol s =>
    match s with
    | .current | .root | .parenOpen | .minus | .not | .mapOpen => true
    | _ => false
  | _ => false

namespace Expr

mutual

/-- An expression whose binary operators, outside parentheses, have at least the given level; from
level 5 on there are none. -/
def readAt (level : Nat) (ts : List Token) : Read Expr ts :=
  if level < 5 then do
    let ⟨first, rest, h⟩ ← readAt (level + 1) ts
    return (← readOperators level first rest).within h
  else readUnary ts
termination_by 10 * ts.length + (5 - level) + 3

/-- Further operators of a level with their operands, after the operand `lhs`. -/
def readOperators (level : Nat) (lhs : Expr) (ts : List Token) : ReadMore Expr ts :=
  match ts with
  | [] => .ok (.upTo lhs [])
  | t :: rest =>
    match BinaryOp.ofToken? level t with
    | none => .ok (.upTo lhs (t :: rest))
    | some op => do
      let ⟨rhs, after, h⟩ ← readAt (level + 1) rest
      if level = BinaryOp.comparisonLevel then
        return ((Reading.upTo (.binary op lhs rhs) after).within h).skip 2
      else
        return ((← readOperators level (.binary op lhs rhs) after).within h).skip 2
termination_by 10 * ts.length

/-- A sign or a negation with its operand, or an operand with its accessors. The symbol that opens a
map also starts the negation of an expression in parentheses. -/
def readUnary (ts : List Token) : Read Expr ts :=
  match ts with
  | .symbol .minus :: rest => do return ((← readUnary rest).map (.unary .neg)).skip 1
  | .symbol .not :: rest => do return ((← readUnary rest).map (.unary .not)).skip 1
  | .symbol .mapOpen :: rest => do
    return ((← (← readAt 0 rest).before .parenClose).map (.unary .not)).skip 1
  | ts => do
    let ⟨target, rest, h⟩ ← readPrimary ts
    return (← readAccessors target rest).within h
termination_by 10 * ts.length + 2

/-- Further properties, calls and elements of a target. A name before parentheses is a method. -/
def readAccessors (target : Expr) (ts : List Token) : ReadMore Expr ts :=
  match ts with
  | .symbol .dot :: .identifier name :: .symbol .parenOpen :: rest => do
    let ⟨args, after, h⟩ ← readArguments rest
    match Method.ofName? name with
    | some m => return ((← readAccessors (.call target m args) after).within h).skip 4
    | none => .error .identifier
  | .symbol .dot :: .identifier name :: rest => do
    return (← readAccessors (.property target name) rest).skip 2
  | .symbol .dot :: rest => unexpected rest
  | .symbol .bracketOpen :: rest => do
    let ⟨index, after, h⟩ ← (← readAt 0 rest).before .bracketClose
    return ((← readAccessors (.element target index) after).within h).skip 2
  | ts => .ok (.upTo target ts)
termination_by 10 * ts.length

/-- The arguments of a call, after the opening parenthesis and up to the closing one. -/
def readArguments (ts : List Token) : Read (List Expr) ts :=
  match ts with
  | [] => .error .finish
  | t :: rest =>
    if startsWith t then do
      let ⟨first, after, h⟩ ← readAt 0 (t :: rest)
      have : after.length < rest.length + 1 := h
      return ((← readMoreArguments after).map (first :: ·)).below h
    else if t = .symbol .parenClose then .ok (.upTo [] rest)
    else .error t.kind
termination_by 10 * ts.length + 9

/-- Further arguments, each after a comma, up to the closing parenthesis. -/
def readMoreArguments (ts : List Token) : Read (List Expr) ts :=
  match ts with
  | .symbol .comma :: t :: rest =>
    if startsWith t then do
      let ⟨next, after, h⟩ ← readAt 0 (t :: rest)
      have : after.length < rest.length + 1 := h
      return (((← readMoreArguments after).map (next :: ·)).below h).skip 1
    else .error (.symbol .comma)
  | .symbol .parenClose :: rest => .ok (.upTo [] rest)
  | ts => unexpected ts
termination_by 10 * ts.length

/-- A current value, a root, a literal, a coercion or an expression in parentheses. -/
def readPrimary (ts : List Token) : Read Expr ts :=
  match ts with
  | .symbol .current :: rest => .ok (.upTo .current rest)
  | .symbol .root :: rest => .ok (.upTo .root rest)
  | .number d :: rest => .ok (.upTo (.literal (.number d)) rest)
  | .string s :: rest => .ok (.upTo (.literal (.string s)) rest)
  | .identifier name :: rest =>
    match Literal.ofName? name, Coercion.ofName? name with
    | some l, _ => .ok (.upTo (.literal l) rest)
    | none, some c =>
      match rest with
      | .symbol .parenOpen :: rest => do
        return ((← (← readAt 0 rest).before .parenClose).map (.coerce c)).skip 2
      | rest => unexpected rest
    | none, none => .error .identifier
  | .symbol .parenOpen :: rest => do
    return (← (← readAt 0 rest).before .parenClose).skip 1
  | ts => unexpected ts
termination_by 10 * ts.length + 1

end

/-- Reads an expression. -/
def read (ts : List Token) : Read Expr ts := readAt 0 ts

end Expr
end PathQuery
