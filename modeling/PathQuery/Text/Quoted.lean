import PathQuery.Text.Blank
import PathQuery.Text.EscapedTable

/-! Texts in double quotes, as log messages show them. -/
namespace PathQuery.Text

/-- A character inside double quotes: quotes, backslashes and some controls are escaped by a letter,
and by its code point what cannot be printed on its own. -/
def escape (c : Char) : List Char :=
  if c = '"' then ['\\', '"']
  else if c = '\\' then ['\\', '\\']
  else if c = '\t' then ['\\', 't']
  else if c = '\n' then ['\\', 'n']
  else if c = '\r' then ['\\', 'r']
  else if c.toNat = 0 then ['\\', '0']
  else if inIntervals escapedIntervals c then
    ['\\', 'u', '\x7b'] ++ Nat.toDigits 16 c.toNat ++ ['\x7d']
  else [c]

/-- The text between double quotes. -/
def quote (s : String) : String := String.ofList (['"'] ++ s.toList.flatMap escape ++ ['"'])

end PathQuery.Text
