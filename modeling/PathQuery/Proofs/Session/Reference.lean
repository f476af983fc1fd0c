import Mathlib.Data.List.Forall2
import PathQuery.Proofs.Session.Store
import PathQuery.Session

/-! Sessions answer as if there were no store.
The reference keeps no compiled query at all, but only the paths that matchers were made from, and
compiles anew for every command. -/
namespace PathQuery.Session

/-! ## The reference -/

namespace Reference

/-- Compiles a path and goes on with its steps. -/
def compileThen (path : String) (use : List Step → Answer) : Answer :=
  match Query.compile path with
  | .ok q => use q.steps
  | .error e => .failed e

/-- The answer to a command, given the matchers by name and the paths they were made from. A command
about the store itself has none. -/
def answer (made : List (String × String)) : Command → Option Answer
  | .compile path => some (compileThen path fun steps => .compiled ⟨path, steps⟩ none)
  | .query path document =>
    some (compileThen path fun steps => .value (Step.execute steps document))
  | .matcher _ path => some (compileThen path fun _ => .made)
  | .call name document =>
    match made.lookup name with
    | some path => some (compileThen path fun steps => .value (Step.execute steps document))
    | none => some .noMatcher
  | .size => none
  | .isEmpty => none

/-- The matchers after a command. -/
def remember (made : List (String × String)) : Command → List (String × String)
  | .matcher name path =>
    match Query.compile path with
    | .ok _ => (name, path) :: made
    | .error _ => made
  | _ => made

/-- The answers to some commands. -/
def run (made : List (String × String)) : List Command → List (Option Answer)
  | [] => []
  | c :: cs => answer made c :: run (remember made c) cs

end Reference

/-- What an answer says apart from the store: of a query not where it is stored. -/
def Answer.apart : Answer → Option Answer
  | .compiled q _ => some (.compiled q none)
  | .count _ => none
  | .flag _ => none
  | a => some a

/-- The answers to some commands, apart from the store. -/
def answers (s : Session) (cs : List Command) : List (Option Answer) :=
  (s.run cs).map fun r => r.answer.apart

/-! ## One command -/

/-- A session and a reference with the same matchers, made from paths that compile to them. -/
structure Follows (s : Session) (made : List (String × String)) : Prop where
  faithful : s.store.Faithful
  matchers : List.Forall₂ (fun m p => m.1 = p.1 ∧ Query.compile p.2 = .ok m.2) s.matchers made

variable {s : Session} {made : List (String × String)} {path : String}

theorem lookup_matchers {ms : List (String × Query)}
    (h : List.Forall₂ (fun m p => m.1 = p.1 ∧ Query.compile p.2 = .ok m.2) ms made)
    (name : String) :
    (ms.lookup name = none ∧ made.lookup name = none) ∨
    ∃ q path, ms.lookup name = some q ∧ made.lookup name = some path ∧
      Query.compile path = .ok q := by
  induction h with
  | nil => exact .inl ⟨rfl, rfl⟩
  | @cons m p ms made hmp _ ih =>
    obtain ⟨n, q⟩ := m
    obtain ⟨_, path⟩ := p
    obtain ⟨rfl, hq⟩ := hmp
    by_cases hn : name = n
    · subst hn
      exact .inr ⟨q, path, by simp, by simp, hq⟩
    · have hb : (name == n) = false := by simpa using hn
      simpa [List.lookup_cons, hb] using ih

/-- A command that compiles a path follows the reference if it does so where the path compiles and
nothing is to be remembered where it does not. -/
theorem follows_withQuery (h : Follows s made) {use : Session → Stored → Session × Answer}
    {reply : List Step → Answer} {made' : List (String × String)}
    (hok : ∀ t slot q, Follows t made → Query.compile path = .ok q →
      (use t ⟨slot, q⟩).2.apart = some (reply q.steps) ∧ Follows (use t ⟨slot, q⟩).1 made')
    (herror : ∀ e, Query.compile path = .error e → made = made') :
    (s.withQuery path use).2.1.apart = some (Reference.compileThen path reply) ∧
    Follows (s.withQuery path use).1 made' := by
  have ht : Follows { s with store := (s.store.compile path).2.1 } made :=
    ⟨h.faithful.compile path, h.matchers⟩
  unfold Reference.compileThen
  cases hq : Query.compile path with
  | ok q =>
    obtain ⟨slot, hr⟩ := h.faithful.compile_of_ok hq
    simpa [withQuery, hr] using hok _ slot q ht hq
  | error e =>
    obtain rfl := herror e hq
    have hr := h.faithful.compile_of_error hq
    simpa [withQuery, hr, Answer.apart] using ht

theorem follows_answer (h : Follows s made) (c : Command) :
    (s.answer c).2.1.apart = Reference.answer made c ∧
    Follows (s.answer c).1 (Reference.remember made c) := by
  cases c with
  | compile path =>
    refine follows_withQuery h (fun t slot q ht hq => ⟨?_, ht.faithful, ht.matchers⟩) fun _ _ => rfl
    obtain rfl := Query.source_of_compile hq
    rfl
  | query path document =>
    exact follows_withQuery h (fun t slot q ht _ => ⟨rfl, ht⟩) fun _ _ => rfl
  | matcher name path =>
    refine follows_withQuery h (fun t slot q ht hq => ⟨rfl, ht.faithful, ?_⟩) fun e he => ?_
    · simpa [Reference.remember, hq] using ht.matchers
    · simp [Reference.remember, he]
  | call name document =>
    rcases lookup_matchers h.matchers name with ⟨hl, hr⟩ | ⟨q, path, hl, hr, hq⟩
    · simp only [answer, Reference.answer, hl, hr]
      exact ⟨rfl, h⟩
    · simp only [answer, Reference.answer, hl, hr, Reference.compileThen, hq]
      exact ⟨rfl, h⟩
  | size => exact ⟨rfl, h⟩
  | isEmpty => exact ⟨rfl, h⟩

/-! ## All commands -/

theorem answers_of_follows (h : Follows s made) (cs : List Command) :
    s.answers cs = Reference.run made cs := by
  induction cs generalizing s made with
  | nil => rfl
  | cons c cs ih =>
    obtain ⟨ha, hf⟩ := follows_answer h c
    calc s.answers (c :: cs)
        = (s.answer c).2.1.apart :: (s.answer c).1.answers cs := rfl
      _ = Reference.run made (c :: cs) := by rw [ha, ih hf, Reference.run]

/-- A session on a fresh store of any capacity answers every command as the reference does. -/
theorem answers_eq_reference (cs : List Command) :
    (ofStore .empty).answers cs = Reference.run [] cs ∧
    ∀ capacity, (ofStore (.withCapacity capacity)).answers cs = Reference.run [] cs := by
  have h : Follows (ofStore .empty) [] := ⟨Store.faithful_empty, .nil⟩
  exact ⟨answers_of_follows h cs, fun _ => answers_of_follows h cs⟩

end PathQuery.Session
