import PathQuery.Expr.Basic
import PathQuery.Json.Comparison
import PathQuery.Text.Case
import PathQuery.Text.Search

/-! Methods of strings and arrays.
Changing case needs a string; searching in a string needs a string to look for, and searching in an
array takes any value. In every other case there is no outcome. -/
namespace PathQuery

namespace Json

/-- The position of the first item that is strictly equal to `v`. -/
def indexOf? (v : Json) (items : List Json) : Option Nat := items.findIdx? fun w => w.strictEq v

/-- An offset as a value, -1 where there is none. -/
def ofOffset (offset : Option Nat) : Json :=
  .number (.int (match offset with | some n => n | none => -1))

end Json

namespace Method

/-- Calls a method on a target with an argument, which may be absent. -/
def call (m : Method) (target : Json) (arg : Outcome) : Outcome :=
  match m, target, arg with
  | .toLowerCase, .string s, _ => some (.string (Text.toLower s))
  | .toUpperCase, .string s, _ => some (.string (Text.toUpper s))
  | .includes, .string s, some (.string t) => .ofBool (Text.contains t.toList s.toList)
  | .includes, .array items, some v => .ofBool (items.any fun w => w.strictEq v)
  | .indexOf, .string s, some (.string t) => some (.ofOffset (Text.offset? t.toList s.toList))
  | .indexOf, .array items, some v => some (.ofOffset (Json.indexOf? v items))
  | .startsWith, .string s, some (.string t) => .ofBool (t.toList.isPrefixOf s.toList)
  | .endsWith, .string s, some (.string t) => .ofBool (t.toList.isSuffixOf s.toList)
  | _, _, _ => none

end Method
end PathQuery
