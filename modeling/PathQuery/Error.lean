import PathQuery.Token.Basic

/-! Why a path text does not compile. -/
namespace PathQuery

inductive PathError where
  /-- No token starts with this character. -/
  | noToken (c : Char)
  /-- The grammar has no place for this kind of token where it stands. -/
  | unexpected (kind : Token.Kind)
  deriving DecidableEq

/-- The text of an error. -/
def PathError.message : PathError → String
  | .noToken c => "Found no matching rule: " ++ String.singleton c
  | .unexpected kind => "Unknown token type: " ++ kind.label

end PathQuery
