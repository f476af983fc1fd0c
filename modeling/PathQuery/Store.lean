import PathQuery.Query
import PathQuery.Text.Quoted

/-! A store of compiled queries, each under the exact text of its path.
Entries are never dropped, and a path that does not compile leaves no trace but a log entry. The
slot of an entry tells whether two answers are the same stored query. -/
namespace PathQuery

/-- What compiling through a store reports. -/
inductive LogEntry where
  | hit (path : String)
  | compiled (path : String) (steps : Nat)
  | failed (path : String) (error : PathError)

/-- The level at which an entry is logged. -/
def LogEntry.level : LogEntry → String
  | .hit _ => "TRACE"
  | .compiled _ _ => "DEBUG"
  | .failed _ _ => "DEBUG"

/-- The text of an entry; a path is quoted except after a hit. -/
def LogEntry.message : LogEntry → String
  | .hit path => "query cache hit: " ++ path
  | .compiled path steps =>
    "compiled " ++ Text.quote path ++ " into " ++ Json.intText steps ++ " steps"
  | .failed path error => "failed to compile " ++ Text.quote path ++ ": " ++ error.message

/-- Queries in the order in which they were first compiled. -/
structure Store where
  queries : List Query

/-- A query together with its place in the store. -/
structure Stored where
  slot : Nat
  query : Query

namespace Store

def empty : Store := ⟨[]⟩

/-- A store that is expected to hold `n` queries; it behaves as any other. -/
def withCapacity (_n : Nat) : Store := empty

def size (s : Store) : Nat := s.queries.length

def isEmpty (s : Store) : Bool := s.queries.isEmpty

/-- The query stored under a path text. -/
def find? (s : Store) (path : String) : Option Stored := do
  let slot ← s.queries.findIdx? fun q => q.source = path
  return ⟨slot, ← s.queries[slot]?⟩

/-- The query stored under a path text, compiled and stored if it is not there yet. -/
def compile (s : Store) (path : String) : Except PathError Stored × Store × LogEntry :=
  match s.find? path with
  | some entry => (.ok entry, s, .hit path)
  | none =>
    match Query.compile path with
    | .ok q => (.ok ⟨s.size, q⟩, ⟨s.queries ++ [q]⟩, .compiled path q.steps.length)
    | .error e => (.error e, s, .failed path e)

end Store
end PathQuery
