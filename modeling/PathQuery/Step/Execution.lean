import PathQuery.Expr.Evaluation
import PathQuery.Json.Descent
import PathQuery.Step.Basic

/-! Carrying out steps on a document.
A step turns the list of values found so far into the next one, and may change the shape in which
the values at the end are handed back. -/
namespace PathQuery

namespace Json

/-- What filters and maps look at: the items of an array, and any other value itself. -/
def candidates : Json → List Json
  | .array items => items
  | v => [v]

/-- Whether a value has one of the properties. -/
def hasAny (keys : List String) (v : Json) : Bool := keys.any fun k => (v.property k).isSome

/-- The properties of a value in a row, null for those it lacks. -/
def tuple (keys : List String) (v : Json) : Json :=
  .array (keys.map fun k => (v.property k).getD .null)

/-- The properties of a value that it has, as an object. -/
def record (keys : List String) (v : Json) : Json :=
  ofMembers (keys.filterMap fun k => (v.property k).map (k, ·))

end Json

/-- The value that a selector names. -/
def Selector.select : Selector → Json → Option Json
  | .index i => Json.element i
  | .name s => Json.property s

/-- How the values found at the end are handed back: the only one or null, all in an array, or
unwrapped if there is exactly one. -/
inductive Shape where
  | single | sequence | constructed
  deriving DecidableEq

/-- The values found so far and the shape of the result. -/
structure Progress where
  found : List Json
  shape : Shape

namespace Progress

/-- Before the first step nothing is found. -/
def start : Progress := ⟨[], .single⟩

/-- The result, if no step follows. -/
def result (p : Progress) : Json :=
  match p.shape, p.found with
  | .sequence, vs => .array vs
  | .constructed, [v] => v
  | .constructed, vs => .array vs
  | .single, v :: _ => v
  | .single, [] => .null

end Progress

namespace Step

/-- What a step finds from the values found before it. -/
def select (root : Json) (step : Step) (found : List Json) : List Json :=
  match step with
  | .root => [root]
  | .recurse => found.flatMap Json.descendants
  | .member name => found.filterMap (Json.property name)
  | .wildcard => found.flatMap Json.children
  | .index i => found.filterMap (Json.element i)
  | .slice start stop => found.flatMap (Json.slice start stop)
  | .union selectors => selectors.flatMap fun s => found.filterMap s.select
  | .filter e => (found.flatMap Json.candidates).filter fun v => (e.eval v root).truthy
  | .map e => (found.flatMap Json.candidates).map fun v => (e.eval v root).getD .null
  | .computed e =>
    found.filterMap fun v => (e.eval v root).index?.bind fun i => v.element i
  | .tuple keys => (found.filter (Json.hasAny keys)).map (Json.tuple keys)
  | .record keys => (found.filter (Json.hasAny keys)).map (Json.record keys)
  | .coerce c => found.map c.apply

/-- The shape after a step. A map keeps it unless it went through the items of an array. -/
def reshape (step : Step) (found : List Json) (shape : Shape) : Shape :=
  match step with
  | .root => .single
  | .member _ => shape
  | .coerce _ => shape
  | .map _ => if found.any Json.isArray then .sequence else shape
  | .tuple _ => .constructed
  | .record _ => .constructed
  | _ => .sequence

/-- Carries out one step. -/
def advance (root : Json) (p : Progress) (step : Step) : Progress :=
  ⟨step.select root p.found, step.reshape p.found p.shape⟩

/-- Carries out steps one after the other. -/
def run (root : Json) (steps : List Step) (p : Progress) : Progress :=
  steps.foldl (advance root) p

/-- The result of some steps on a document. -/
def execute (steps : List Step) (root : Json) : Json := (run root steps .start).result

/-- The progress after each of some steps. -/
def stages (root : Json) (p : Progress) : List Step → List Progress
  | [] => []
  | step :: steps => advance root p step :: stages root (advance root p step) steps

end Step
end PathQuery
