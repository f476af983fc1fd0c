import PathQuery.Expr.Basic

/-! Steps: the units of a compiled path, carried out from left to right. -/
namespace PathQuery

/-- An item of a list in brackets: a position or a name. -/
inductive Selector where
  | index (i : Int)
  | name (s : String)
  deriving DecidableEq

/-- One step of a path. -/
inductive Step where
  /-- `$` -/
  | root
  /-- `..` -/
  | recurse
  /-- `.name` -/
  | member (name : String)
  /-- `.*` and `[*]` -/
  | wildcard
  /-- `[i]` -/
  | index (i : Int)
  /-- `[start:stop]` -/
  | slice (start stop : Option Int)
  /-- `[i, 'name', ...]` -/
  | union (selectors : List Selector)
  /-- `[?(e)]` -/
  | filter (e : Expr)
  /-- `[!(e)]` -/
  | map (e : Expr)
  /-- `[(e)]` -/
  | computed (e : Expr)
  /-- `['name', ...]` -/
  | tuple (keys : List String)
  /-- Quoted names in braces. -/
  | record (keys : List String)
  /-- `<type>` -/
  | coerce (c : Coercion)

/-- The step of a list in brackets: one position is an index, names alone build tuples, and anything
else is a union. -/
def Step.ofSelectors (selectors : List Selector) : Step :=
  match selectors with
  | [.index i] => .index i
  | _ =>
    let names := selectors.filterMap fun s =>
      match s with
      | .name n => some n
      | .index _ => none
    if names.length = selectors.length then .tuple names else .union selectors

end PathQuery
