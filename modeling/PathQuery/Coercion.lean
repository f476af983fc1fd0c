import PathQuery.Outcome

/-! Coercions: the conversions that a path or an expression can ask for by name. -/
namespace PathQuery

/-- What a value can be converted to. -/
inductive Coercion where
  | string | number | float | int
  deriving DecidableEq

namespace Coercion

def name : Coercion → String
  | .string => "String"
  | .number => "Number"
  | .float => "float"
  | .int => "int"

def all : List Coercion := [.string, .number, .float, .int]

def ofName? (s : String) : Option Coercion := all.find? fun c => c.name = s

/-- Converts a value: to its text, to the number it strictly reads as, to the number it leniently
reads as, or to the latter without its fraction. -/
def convert (c : Coercion) (v : Json) : Outcome :=
  match c with
  | .string => some (.string v.text)
  | .number => v.toNumber?.bind Json.ofDouble?
  | .float => v.leadingNumber?.bind Json.ofDouble?
  | .int => (v.leadingNumber?.map Double.trunc).bind Json.ofDouble?

/-- Converts a value, to null where there is no number. -/
def apply (c : Coercion) (v : Json) : Json := (c.convert v).getD .null

end Coercion
end PathQuery
