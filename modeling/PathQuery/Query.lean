import PathQuery.Step.Execution
import PathQuery.Step.Parser
import PathQuery.Token.Lexer

/-! Compiled queries. -/
namespace PathQuery

/-- A path with its compiled steps. -/
structure Query where
  source : String
  steps : List Step

namespace Query

/-- The steps of some tokens. -/
def parse (tokens : List Token) : Except PathError (List Step) :=
  (Step.ofTokens tokens).mapError .unexpected

/-- Compiles a path text. -/
def compile (path : String) : Except PathError Query := do
  return ⟨path, ← parse (← Token.ofText path)⟩

/-- The result on a document. -/
def run (q : Query) (document : Json) : Json := Step.execute q.steps document

/-- The expression of a path that does nothing but map the document. -/
def mapped? (q : Query) : Option Expr :=
  match q.steps with
  | [.root, .map e] => some e
  | _ => none

/-- Compiles the text of an expression, as the body of a map over the document; none if the text
closes the map early and goes on. -/
def compileExpression (source : String) : Except PathError (Option Expr) := do
  return (← compile ("$[!(" ++ source ++ ")]")).mapped?

end Query
end PathQuery
