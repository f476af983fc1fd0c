/-! Where one text occurs in another. -/
namespace PathQuery.Text

/-- The least offset at which `needle` occurs in a text. -/
def offset? (needle : List Char) : List Char → Option Nat
  | [] => if needle.isEmpty then some 0 else none
  | c :: cs =>
    if needle.isPrefixOf (c :: cs) then some 0 else (offset? needle cs).map (· + 1)

/-- Whether `needle` occurs in a text. -/
def contains (needle text : List Char) : Bool := (offset? needle text).isSome

end PathQuery.Text
