import PathQuery.Double.Basic

/-! Tokens of path texts.
A symbol always has the same spelling; the other tokens carry what they spell. Every token has a
kind, which is how an error names it. -/
namespace PathQuery

/-- The tokens with one spelling. -/
inductive Symbol where
  | root | current | recurse | dot | star | filterOpen | mapOpen
  | plus | minus | slash
  | equal | strictEqual | notEqual | strictNotEqual | greater | less | greaterEqual | lessEqual
  | and | or | not
  | parenOpen | parenClose | bracketOpen | bracketClose | braceOpen | braceClose | comma | colon
  deriving DecidableEq

/-- A token; `finish` stands at the end of every path. -/
inductive Token where
  | identifier (name : String)
  | string (text : String)
  | number (value : Double)
  | coercion (name : String)
  | symbol (s : Symbol)
  | finish
  deriving DecidableEq

/-- What an error says of a token. -/
inductive Token.Kind where
  | identifier | string | number | coercion
  | symbol (s : Symbol)
  | finish
  deriving DecidableEq

namespace Symbol

/-- How a symbol is written. -/
def spelling : Symbol → String
  | .root => "$"
  | .current => "@"
  | .recurse => ".."
  | .dot => "."
  | .star => "*"
  | .filterOpen => "?("
  | .mapOpen => "!("
  | .plus => "+"
  | .minus => "-"
  | .slash => "/"
  | .equal => "=="
  | .strictEqual => "==="
  | .notEqual => "!="
  | .strictNotEqual => "!=="
  | .greater => ">"
  | .less => "<"
  | .greaterEqual => ">="
  | .lessEqual => "<="
  | .and => "&&"
  | .or => "||"
  | .not => "!"
  | .parenOpen => "("
  | .parenClose => ")"
  | .bracketOpen => "["
  | .bracketClose => "]"
  | .braceOpen => "\x7b"
  | .braceClose => "\x7d"
  | .comma => ","
  | .colon => ":"

/-- The name of a symbol in an error. -/
def label : Symbol → String
  | .root => "root"
  | .current => "current"
  | .recurse => "recurse"
  | .dot => "dot"
  | .star => "star"
  | .filterOpen => "filter-open"
  | .mapOpen => "map-open"
  | .plus => "plus"
  | .minus => "minus"
  | .slash => "slash"
  | .equal => "eq"
  | .strictEqual => "strict-eq"
  | .notEqual => "ne"
  | .strictNotEqual => "strict-ne"
  | .greater => "gt"
  | .less => "lt"
  | .greaterEqual => "ge"
  | .lessEqual => "le"
  | .and => "and"
  | .or => "or"
  | .not => "not"
  | .parenOpen => "paren-open"
  | .parenClose => "paren-close"
  | .bracketOpen => "bracket-open"
  | .bracketClose => "bracket-close"
  | .braceOpen => "brace-open"
  | .braceClose => "brace-close"
  | .comma => "comma"
  | .colon => "colon"

end Symbol

namespace Token

def kind : Token → Kind
  | .identifier _ => .identifier
  | .string _ => .string
  | .number _ => .number
  | .coercion _ => .coercion
  | .symbol s => .symbol s
  | .finish => .finish

/-- The name of a kind in an error. -/
def Kind.label : Kind → String
  | .identifier => "identifier"
  | .string => "string"
  | .number => "number"
  | .coercion => "coercion"
  | .symbol s => s.label
  | .finish => "eof"

/-- Whether an operand can end with this token; a minus sign after it subtracts. -/
def endsOperand : Token → Bool
  | .identifier _ => true
  | .string _ => true
  | .number _ => true
  | .symbol .root => true
  | .symbol .current => true
  | .symbol .parenClose => true
  | .symbol .bracketClose => true
  | .symbol .braceClose => true
  | _ => false

/-- The kind of the first token; where no token is left, the end of the path. -/
def nextKind : List Token → Kind
  | [] => .finish
  | t :: _ => t.kind

end Token
end PathQuery
