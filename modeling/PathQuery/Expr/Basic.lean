import PathQuery.Coercion

/-! Expressions: what stands inside filters, maps and computed indices. -/
namespace PathQuery

/-- A literal. -/
inductive Literal where
  | string (s : String)
  | number (d : Double)
  | bool (b : Bool)
  | null
  deriving DecidableEq

/-- The methods of strings and arrays. -/
inductive Method where
  | toLowerCase | toUpperCase | includes | indexOf | startsWith | endsWith
  deriving DecidableEq

inductive UnaryOp where
  | neg | not
  deriving DecidableEq

inductive BinaryOp where
  | or | and
  | equal | strictEqual | notEqual | strictNotEqual | greater | less | greaterEqual | lessEqual
  | add | sub | mul | div
  deriving DecidableEq

/-- An expression, read with a current value `@` and the root of the document `$`. -/
inductive Expr where
  | literal (l : Literal)
  | current
  | root
  | property (target : Expr) (name : String)
  | element (target index : Expr)
  | call (target : Expr) (method : Method) (args : List Expr)
  | coerce (c : Coercion) (arg : Expr)
  | unary (op : UnaryOp) (arg : Expr)
  | binary (op : BinaryOp) (lhs rhs : Expr)

namespace Method

def name : Method → String
  | .toLowerCase => "toLowerCase"
  | .toUpperCase => "toUpperCase"
  | .includes => "includes"
  | .indexOf => "indexOf"
  | .startsWith => "startsWith"
  | .endsWith => "endsWith"

def all : List Method :=
  [.toLowerCase, .toUpperCase, .includes, .indexOf, .startsWith, .endsWith]

def ofName? (s : String) : Option Method := all.find? fun m => m.name = s

end Method

/-- The value of a literal; a number that is not finite becomes null. -/
def Literal.value : Literal → Json
  | .string s => .string s
  | .number d => (Json.ofDouble? d).getD .null
  | .bool b => .bool b
  | .null => .null

end PathQuery
