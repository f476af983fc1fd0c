import PathQuery.Expr.Parser
import PathQuery.Step.Basic

/-! Reading the steps of a path from tokens.
A path is `$`, then segments, then the end. Each segment is known by its first token, so that a
failure inside it is final and blames the token that does not fit. -/
namespace PathQuery

namespace Token

/-- The position that a number token denotes: a whole number, kept within 64 bits. -/
def index? : Token → Option Int
  | .number d => if d.isIntegral then some d.toInt64 else none
  | _ => none

/-- The name in a string token. -/
def key? : Token → Option String
  | .string s => some s
  | _ => none

/-- The selector that a token denotes. -/
def selector? : Token → Option Selector
  | .string s => some (.name s)
  | t => t.index?.map .index

end Token

namespace Step

/-- A position, if one comes next, and what follows it. -/
def readBound : List Token → Option Int × List Token
  | [] => (none, [])
  | t :: rest =>
    match t.index? with
    | some i => (some i, rest)
    | none => (none, t :: rest)

theorem length_readBound_le (ts : List Token) : (readBound ts).2.length ≤ ts.length := by
  unfold readBound
  split
  · simp
  · split <;> simp

/-- The two bounds of a slice around a colon, if there is one. -/
def readSlice? (ts : List Token) : Option (Reading Step ts.length) :=
  match hs : readBound ts with
  | (start, .symbol .colon :: rest) =>
    some ⟨.slice start (readBound rest).1, (readBound rest).2, by
      have h := length_readBound_le ts
      have := length_readBound_le rest
      rw [hs] at h
      simp only [List.length_cons] at h
      omega⟩
  | _ => none

/-- Further items, each after a comma; a comma that no item follows is left unread. -/
def readMoreItems {α : Type} (item? : Token → Option α) : List Token → List α × List Token
  | .symbol .comma :: t :: rest =>
    match item? t with
    | some a => (a :: (readMoreItems item? rest).1, (readMoreItems item? rest).2)
    | none => ([], .symbol .comma :: t :: rest)
  | ts => ([], ts)

theorem length_readMoreItems_le {α : Type} (item? : Token → Option α) (ts : List Token) :
    (readMoreItems item? ts).2.length ≤ ts.length := by
  fun_induction readMoreItems item? ts with
  | case1 t rest a _ ih =>
    simp only [List.length_cons]
    omega
  | case2 => simp
  | case3 => simp

/-- One or more items with commas between them. -/
def readItems {α : Type} (item? : Token → Option α) (ts : List Token) : Read (List α) ts :=
  match ts with
  | [] => .error .finish
  | t :: rest =>
    match item? t with
    | some a =>
      .ok ⟨a :: (readMoreItems item? rest).1, (readMoreItems item? rest).2, by
        have := length_readMoreItems_le item? rest
        simp only [List.length_cons]
        omega⟩
    | none => .error t.kind

/-- An expression up to the closing parenthesis. -/
def readEnclosed (step : Expr → Step) (ts : List Token) : Read Step ts := do
  return (← (← Expr.read ts).before .parenClose).map step

/-- What stands in brackets. -/
def readBracketBody (ts : List Token) : Read Step ts :=
  match ts with
  | .symbol .filterOpen :: rest => do return (← readEnclosed .filter rest).skip 1
  | .symbol .mapOpen :: rest => do return (← readEnclosed .map rest).skip 1
  | .symbol .parenOpen :: rest => do return (← readEnclosed .computed rest).skip 1
  | .symbol .star :: rest => .ok (.upTo .wildcard rest)
  | ts =>
    match readSlice? ts with
    | some r => .ok r
    | none => do return (← readItems Token.selector? ts).map ofSelectors

/-- A step in brackets, after the opening one. -/
def readBracket (ts : List Token) : Read Step ts := do
  (← readBracketBody ts).before .bracketClose

/-- Quoted names in braces, after the opening one. -/
def readBrace (ts : List Token) : Read Step ts := do
  return (← (← readItems Token.key? ts).before .braceClose).map .record

/-- A name, a quoted name or a star. -/
def readMember (ts : List Token) : Read Step ts :=
  match ts with
  | .identifier name :: rest => .ok (.upTo (.member name) rest)
  | .string name :: rest => .ok (.upTo (.member name) rest)
  | .symbol .star :: rest => .ok (.upTo .wildcard rest)
  | ts => unexpected ts

/-- What `..` applies to: a member, brackets or braces. Where none of them follows there is no step
at all. -/
def readRecursion (ts : List Token) : ReadMore (List Step) ts :=
  match ts with
  | .identifier name :: rest => .ok ((Reading.upTo [.recurse, .member name] rest).skip 1)
  | .string name :: rest => .ok ((Reading.upTo [.recurse, .member name] rest).skip 1)
  | .symbol .star :: rest => .ok ((Reading.upTo [.recurse, .wildcard] rest).skip 1)
  | .symbol .bracketOpen :: rest => do return ((← readBracket rest).map ([.recurse, ·])).skip 2
  | .symbol .braceOpen :: rest => do return ((← readBrace rest).map ([.recurse, ·])).skip 2
  | ts => .ok (.upTo [] ts)

/-- The next segment, or none where no segment starts. -/
def readSegment? (ts : List Token) :
    Except Token.Kind (Option (Reading (List Step) ts.length)) :=
  match ts with
  | .symbol .dot :: rest => do return some (((← readMember rest).map ([·])).skip 1)
  | .symbol .recurse :: rest => do return some (← readRecursion rest)
  | .symbol .bracketOpen :: rest => do return some (((← readBracket rest).map ([·])).skip 1)
  | .symbol .braceOpen :: rest => do return some (((← readBrace rest).map ([·])).skip 1)
  | .coercion name :: rest =>
    match Coercion.ofName? name with
    | some c => .ok (some (.upTo [.coerce c] rest))
    | none => .error .coercion
  | _ => .ok none

/-- All segments that follow one another, and what comes after them. -/
def readSegments (ts : List Token) : Except Token.Kind (List Step × List Token) := do
  match ← readSegment? ts with
  | none => return ([], ts)
  | some ⟨steps, rest, _⟩ =>
    let (more, rest) ← readSegments rest
    return (steps ++ more, rest)
termination_by ts.length

/-- The steps of a path. What comes after its end does not matter. -/
def ofTokens : List Token → Except Token.Kind (List Step)
  | .symbol .root :: ts => do
    match ← readSegments ts with
    | (steps, .finish :: _) => return .root :: steps
    | (_, rest) => unexpected rest
  | ts => unexpected ts

end Step
end PathQuery
