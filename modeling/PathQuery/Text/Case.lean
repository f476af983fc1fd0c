import PathQuery.Text.Blank
import PathQuery.Text.CaseTable
import PathQuery.Text.CasedTable

/-! Lower and upper case of a text.
Each character maps on its own, to several characters where the mapping says so; only the capital
sigma looks around itself, being written in its final form at the end of a word. -/
namespace PathQuery.Text

/-- The code point that a run of the table gives for `n`. -/
def CaseRun.map? (run : CaseRun) (n : Nat) : Option Nat :=
  if run.first ≤ n ∧ n ≤ run.last ∧ (n - run.first) % run.step = 0 then
    some (n + run.shift).toNat
  else none

/-- The character that a table gives for `c`, or `c` itself. -/
def mapCase (runs : List CaseRun) (c : Char) : Char :=
  ((runs.findSome? fun run => run.map? c.toNat).map Char.ofNat).getD c

/-- The lower case form of a character outside any word; the dotted capital I keeps its dot. -/
def lowerChar (c : Char) : List Char :=
  if c = 'İ' then ['i', '\u0307'] else [mapCase lowerRuns c]

/-- The upper case form of a character. -/
def upperChar (c : Char) : List Char :=
  match upperExpansions.lookup c.toNat with
  | some ns => ns.map Char.ofNat
  | none => [mapCase upperRuns c]

/-- Whether the first character that is not passed over is a letter with case. -/
def startsCased (cs : List Char) : Bool :=
  (cs.dropWhile (inIntervals ignorableIntervals)).head?.any (inIntervals casedIntervals)

/-- The lower case form of a text that follows `before`, given back to front. -/
def lowerAfter (before : List Char) : List Char → List Char
  | [] => []
  | c :: after =>
    (if c = 'Σ' then [if startsCased before && !startsCased after then 'ς' else 'σ']
      else lowerChar c) ++ lowerAfter (c :: before) after

def toLower (s : String) : String := String.ofList (lowerAfter [] s.toList)

def toUpper (s : String) : String := String.ofList (s.toList.flatMap upperChar)

end PathQuery.Text
