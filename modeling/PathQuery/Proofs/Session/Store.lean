import Mathlib.Tactic.Common
import PathQuery.Store

/-! What compiling through a store answers.
As long as every stored query is what its own path compiles to, the answer is that of compiling
without a store, and this remains so. -/
namespace PathQuery

theorem Query.source_of_compile {path : String} {q : Query} (h : compile path = .ok q) :
    q.source = path := by
  unfold compile at h
  cases ht : Token.ofText path with
  | error e => simp [ht, bind, Except.bind] at h
  | ok tokens =>
    cases hp : parse tokens with
    | error e => simp [ht, hp, bind, Except.bind] at h
    | ok steps =>
      simp only [ht, hp, bind, Except.bind, pure, Except.pure, Except.ok.injEq] at h
      rw [← h]

namespace Store

/-- Every stored query is what its path compiles to. -/
def Faithful (s : Store) : Prop := ∀ q ∈ s.queries, Query.compile q.source = .ok q

variable {s : Store} {path : String}

theorem faithful_empty : empty.Faithful := by
  simp [Faithful, empty]

theorem mem_of_find? {entry : Stored} (h : s.find? path = some entry) :
    entry.query ∈ s.queries ∧ entry.query.source = path := by
  simp only [find?, Option.bind_eq_bind, Option.bind_eq_some_iff, Option.pure_def,
    Option.some.injEq] at h
  obtain ⟨slot, hslot, q, hq, rfl⟩ := h
  obtain ⟨hlt, hsource, _⟩ := List.findIdx?_eq_some_iff_getElem.mp hslot
  obtain ⟨_, rfl⟩ := List.getElem?_eq_some_iff.mp hq
  exact ⟨List.getElem_mem hlt, of_decide_eq_true hsource⟩

theorem compile_hit {entry : Stored} (h : s.find? path = some entry) :
    s.compile path = (.ok entry, s, .hit path) := by
  simp [compile, h]

theorem compile_stored {q : Query} (h : s.find? path = none) (hq : Query.compile path = .ok q) :
    s.compile path =
      (.ok ⟨s.size, q⟩, ⟨s.queries ++ [q]⟩, .compiled path q.steps.length) := by
  simp [compile, h, hq]

theorem compile_failed {e : PathError} (h : s.find? path = none)
    (he : Query.compile path = .error e) : s.compile path = (.error e, s, .failed path e) := by
  simp [compile, h, he]

/-- The answer of a faithful store, apart from the slot. -/
theorem Faithful.map_query_compile (hs : s.Faithful) (path : String) :
    (s.compile path).1.map Stored.query = Query.compile path := by
  cases hf : s.find? path with
  | some entry =>
    obtain ⟨hm, rfl⟩ := mem_of_find? hf
    rw [compile_hit hf, hs _ hm]
    rfl
  | none =>
    cases hq : Query.compile path with
    | ok q =>
      rw [compile_stored hf hq]
      rfl
    | error e =>
      rw [compile_failed hf hq]
      rfl

theorem Faithful.compile_of_ok {q : Query} (hs : s.Faithful) (hq : Query.compile path = .ok q) :
    ∃ slot, (s.compile path).1 = .ok ⟨slot, q⟩ := by
  have h := hs.map_query_compile path
  rw [hq] at h
  cases hr : (s.compile path).1 with
  | error e =>
    rw [hr] at h
    cases h
  | ok stored =>
    rw [hr] at h
    cases h
    exact ⟨stored.slot, rfl⟩

theorem Faithful.compile_of_error {e : PathError} (hs : s.Faithful)
    (he : Query.compile path = .error e) : (s.compile path).1 = .error e := by
  have h := hs.map_query_compile path
  rw [he] at h
  cases hr : (s.compile path).1 with
  | error e' =>
    rw [hr] at h
    cases h
    rfl
  | ok stored =>
    rw [hr] at h
    cases h

theorem Faithful.compile (hs : s.Faithful) (path : String) : (s.compile path).2.1.Faithful := by
  cases hf : s.find? path with
  | some entry => rwa [compile_hit hf]
  | none =>
    cases hq : Query.compile path with
    | ok q =>
      rw [compile_stored hf hq]
      intro r hr
      rcases List.mem_append.mp hr with hr | hr
      · exact hs r hr
      · obtain rfl := List.mem_singleton.mp hr
        rw [Query.source_of_compile hq]
        exact hq
    | error e => rwa [compile_failed hf hq]

end Store
end PathQuery
