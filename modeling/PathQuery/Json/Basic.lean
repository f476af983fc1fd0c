import PathQuery.Double.Arithmetic

/-! JSON values.
A number is stored either as an integer or as a finite double; the two are told apart even when
they have the same value. An object is the list of its members in their order; `lookup` reads it and
`insert` keeps each key at the place where it came first. -/
namespace PathQuery

/-- A stored number. -/
inductive Number where
  | int (i : Int)
  | float (x : FiniteDouble)
  deriving DecidableEq

/-- A JSON value. -/
inductive Json where
  | null
  | bool (b : Bool)
  | number (n : Number)
  | string (s : String)
  | array (items : List Json)
  | object (members : List (String × Json))

/-- The kinds of JSON values. -/
inductive Json.Kind where
  | null | bool | number | string | array | object
  deriving DecidableEq

/-- The value as a double, rounded if it is a large integer. -/
def Number.toDouble : Number → Double
  | .int i => .ofInt i
  | .float x => .finite x

/-- Stores a double: a whole number below `9e15` in magnitude as an integer, any other finite one as
it is; what is not finite is no number. -/
def Number.ofDouble? : Double → Option Number
  | .finite x =>
    some (if x.isIntegral && x.whole < 9000000000000000 then .int x.toInt else .float x)
  | _ => none

namespace Json

def kind : Json → Kind
  | .null => .null
  | .bool _ => .bool
  | .number _ => .number
  | .string _ => .string
  | .array _ => .array
  | .object _ => .object

def ofNat (n : Nat) : Json := .number (.int n)

/-- Arrays and objects, the values that hold others. -/
def isContainer : Json → Bool
  | .array _ => true
  | .object _ => true
  | _ => false

def isObject : Json → Bool
  | .object _ => true
  | _ => false

def isArray : Json → Bool
  | .array _ => true
  | _ => false

def isString : Json → Bool
  | .string _ => true
  | _ => false

/-- The value of the member called `key`. -/
def lookup (key : String) : List (String × Json) → Option Json
  | [] => none
  | (k, v) :: rest => if k = key then some v else lookup key rest

/-- Sets the member called `key`, at its old place if there is one and else at the end. -/
def insert (key : String) (value : Json) : List (String × Json) → List (String × Json)
  | [] => [(key, value)]
  | (k, v) :: rest => if k = key then (k, value) :: rest else (k, v) :: insert key value rest

/-- An object from members of which later ones replace earlier ones of the same key. -/
def ofMembers (members : List (String × Json)) : Json :=
  .object (members.foldl (fun acc m => insert m.1 m.2 acc) [])

/-- What an object or an array holds, in order. -/
def children : Json → List Json
  | .array items => items
  | .object members => members.map Prod.snd
  | _ => []

end Json
end PathQuery
