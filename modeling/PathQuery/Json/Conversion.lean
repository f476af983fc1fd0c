import PathQuery.Double.Text
import PathQuery.Json.Access
import PathQuery.Numeral
import PathQuery.Text.Blank

/-! JSON values read as numbers, as texts and as truth values. -/
namespace PathQuery.Json

/-- The number that a text as a whole denotes: zero if it is blank, else the value of the numeral
that is left between the blanks at its ends. -/
def numberOfText? (s : String) : Option Double :=
  let cs := Text.trim s.toList
  if cs.isEmpty then some (.ofInt 0) else (Numeral.ofChars? cs).map Numeral.toDouble

/-- The strict reading as a number. -/
def toNumber? : Json → Option Double
  | .null => some (.ofInt 0)
  | .bool b => some (.ofInt (if b then 1 else 0))
  | .number n => some n.toDouble
  | .string s => numberOfText? s
  | _ => none

/-- The lenient reading as a number: of a text only the longest numeral that starts it counts. -/
def leadingNumber? : Json → Option Double
  | .number n => some n.toDouble
  | .string s => (Numeral.read? (Text.trimStart s.toList)).map fun r => r.1.toDouble
  | _ => none

/-- A double as a value, unless it is not finite. -/
def ofDouble? (d : Double) : Option Json := (Number.ofDouble? d).map .number

/-- Floats are written positionally from `1e-6` up to `1e21`. -/
def floatLayout : Layout := ⟨⟨1, -6⟩, ⟨1, 21⟩⟩

/-- The text of a stored number. -/
def numberText : Number → String
  | .int i => intText i
  | .float x => x.text floatLayout

mutual

/-- The text of a value: an array is its items with commas between them, an object does not show
its members. -/
def text : Json → String
  | .null => "null"
  | .bool b => if b then "true" else "false"
  | .number n => numberText n
  | .string s => s
  | .array items => ",".intercalate (itemTexts items)
  | .object _ => "[object Object]"

/-- The texts of the items of an array, where null is the empty text. -/
def itemTexts : List Json → List String
  | [] => []
  | v :: vs => (match v.kind with | .null => "" | _ => text v) :: itemTexts vs

end

/-- Null, false, zero and the empty text count as false. -/
def truthy : Json → Bool
  | .null => false
  | .bool b => b
  | .number n => !n.toDouble.eq (.ofInt 0)
  | .string s => s ≠ ""
  | .array _ => true
  | .object _ => true

end PathQuery.Json
