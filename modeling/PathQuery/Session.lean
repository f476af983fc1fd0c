import PathQuery.Store

/-! Sessions: commands given one after the other to one store.
A session also keeps matchers, which are queries under names of their own, and remembers which
stored query each successful compilation returned. -/
namespace PathQuery

structure Session where
  store : Store
  matchers : List (String × Query)
  returned : List Nat

inductive Session.Command where
  | compile (path : String)
  | query (path : String) (document : Json)
  | matcher (name path : String)
  | call (name : String) (document : Json)
  | size
  | isEmpty

inductive Session.Answer where
  /-- A query, and the first earlier compilation that returned the same stored query. -/
  | compiled (q : Query) (sameAs : Option Nat)
  | value (v : Json)
  | made
  | noMatcher
  | count (n : Nat)
  | flag (b : Bool)
  | failed (e : PathError)

/-- An answer with the size of the store after the command and what was logged during it. -/
structure Session.Report where
  answer : Session.Answer
  size : Nat
  log : List LogEntry

namespace Session

def ofStore (s : Store) : Session := ⟨s, [], []⟩

/-- Compiles through the store of the session; `use` tells what becomes of a compiled query. -/
def withQuery (s : Session) (path : String) (use : Session → Stored → Session × Answer) :
    Session × Answer × List LogEntry :=
  let (result, store, entry) := s.store.compile path
  match result with
  | .ok stored =>
    let (next, answer) := use { s with store := store } stored
    (next, answer, [entry])
  | .error e => ({ s with store := store }, .failed e, [entry])

/-- Carries out one command. -/
def answer (s : Session) : Command → Session × Answer × List LogEntry
  | .compile path => s.withQuery path fun s stored =>
    ({ s with returned := s.returned ++ [stored.slot] },
      .compiled stored.query (s.returned.findIdx? fun slot => slot = stored.slot))
  | .query path document => s.withQuery path fun s stored =>
    (s, .value (stored.query.run document))
  | .matcher name path => s.withQuery path fun s stored =>
    ({ s with matchers := (name, stored.query) :: s.matchers }, .made)
  | .call name document =>
    match s.matchers.lookup name with
    | some q => (s, .value (q.run document), [])
    | none => (s, .noMatcher, [])
  | .size => (s, .count s.store.size, [])
  | .isEmpty => (s, .flag s.store.isEmpty, [])

/-- Carries out one command and reports on it. -/
def step (s : Session) (c : Command) : Session × Report :=
  let (next, answer, log) := s.answer c
  (next, ⟨answer, next.store.size, log⟩)

/-- The reports on some commands. -/
def run (s : Session) : List Command → List Report
  | [] => []
  | c :: cs => (s.step c).2 :: run (s.step c).1 cs

end Session
end PathQuery
