import Mathlib.Data.Finset.Card
import PathQuery.Proofs.Session.Store
import PathQuery.Session

/-! What a store and its log say of the commands so far.
Every path that compiles is stored once, under its own text, the first time it is asked for, and is
found again from then on; a path that does not compile leaves no trace but its log entry. -/
namespace PathQuery

/-- Whether a path text compiles. -/
def Query.compiles (path : String) : Bool :=
  match compile path with
  | .ok _ => true
  | .error _ => false

/-- A path with the reason why it does not compile, if it does not. -/
def Query.failure? (path : String) : Option (String × PathError) :=
  match compile path with
  | .ok _ => none
  | .error e => some (path, e)

namespace LogEntry

def compiled? : LogEntry → Option (String × Nat)
  | .compiled path steps => some (path, steps)
  | _ => none

def failed? : LogEntry → Option (String × PathError)
  | .failed path error => some (path, error)
  | _ => none

def hit? : LogEntry → Option String
  | .hit path => some path
  | _ => none

end LogEntry

namespace Store

/-- The path texts under which queries are stored. -/
def keys (s : Store) : List String := s.queries.map Query.source

/-- What holds of a store and everything that it has logged, after some paths were asked for. -/
structure Accounts (s : Store) (asked : List String) (log : List LogEntry) : Prop where
  /-- Each path is stored once. -/
  nodup : s.keys.Nodup
  /-- The paths that are stored are those which were asked for and compile. -/
  mem_keys : ∀ path, path ∈ s.keys ↔ path ∈ asked.filter Query.compiles
  /-- Each stored query has been logged once, when it was compiled. -/
  compiled : log.filterMap LogEntry.compiled? = s.queries.map fun q => (q.source, q.steps.length)
  /-- Each failure has been logged. -/
  failed : log.filterMap LogEntry.failed? = asked.filterMap Query.failure?
  /-- Every other time that a path was asked for which compiles has been logged as a hit. -/
  hits : (s.keys ++ log.filterMap LogEntry.hit?).Perm (asked.filter Query.compiles)

variable {s : Store} {path : String} {asked : List String} {log : List LogEntry}

theorem keys_append (s : Store) (q : Query) :
    keys ⟨s.queries ++ [q]⟩ = s.keys ++ [q.source] := by
  simp [keys]

/-! ## Finding a path -/

theorem find?_eq_none (h : s.find? path = none) : path ∉ s.keys := by
  rintro hmem
  obtain ⟨q, hq, rfl⟩ := List.mem_map.mp hmem
  cases hi : s.queries.findIdx? fun r => r.source = q.source with
  | none => simpa using List.findIdx?_eq_none_iff.mp hi q hq
  | some slot =>
    obtain ⟨hlt, _⟩ := List.findIdx?_eq_some_iff_getElem.mp hi
    simp [find?, hi, hlt] at h

theorem getElem?_keys_of_find? {entry : Stored} (h : s.find? path = some entry) :
    s.keys[entry.slot]? = some path := by
  simp only [find?, Option.bind_eq_bind, Option.bind_eq_some_iff, Option.pure_def,
    Option.some.injEq] at h
  obtain ⟨slot, hslot, q, hq, rfl⟩ := h
  obtain ⟨hlt, hsource, _⟩ := List.findIdx?_eq_some_iff_getElem.mp hslot
  have hsource : s.queries[slot].source = path := of_decide_eq_true hsource
  simp [keys, hlt, hsource]

theorem Faithful.find?_of_error {e : PathError} (hs : s.Faithful)
    (he : Query.compile path = .error e) : s.find? path = none := by
  cases hf : s.find? path with
  | none => rfl
  | some entry =>
    obtain ⟨hm, rfl⟩ := mem_of_find? hf
    rw [hs _ hm] at he
    cases he

/-- What compiling through a store returns, leaves and logs. -/
theorem Faithful.compile_cases (hs : s.Faithful) (path : String) :
    (∃ entry, s.find? path = some entry ∧ s.compile path = (.ok entry, s, .hit path) ∧
      Query.compile path = .ok entry.query) ∨
    (∃ q, path ∉ s.keys ∧ Query.compile path = .ok q ∧ s.compile path =
      (.ok ⟨s.size, q⟩, ⟨s.queries ++ [q]⟩, .compiled path q.steps.length)) ∨
    ∃ e, Query.compile path = .error e ∧ s.compile path = (.error e, s, .failed path e) := by
  cases hf : s.find? path with
  | some entry =>
    obtain ⟨hm, hsource⟩ := mem_of_find? hf
    exact .inl ⟨entry, rfl, compile_hit hf, hsource ▸ hs _ hm⟩
  | none =>
    cases hq : Query.compile path with
    | ok q => exact .inr (.inl ⟨q, find?_eq_none hf, rfl, compile_stored hf hq⟩)
    | error e => exact .inr (.inr ⟨e, rfl, compile_failed hf hq⟩)

/-- Keys stay where they are. -/
theorem getElem?_keys_compile (hs : s.Faithful) {i : Nat} {key : String}
    (h : s.keys[i]? = some key) (path : String) :
    (s.compile path).2.1.keys[i]? = some key := by
  rcases hs.compile_cases path with ⟨entry, _, hc, _⟩ | ⟨q, _, _, hc⟩ | ⟨e, _, hc⟩
  · rwa [hc]
  · have hi : i < s.keys.length := (List.getElem?_eq_some_iff.mp h).1
    rw [hc, keys_append, List.getElem?_append_left hi, h]
  · rwa [hc]

/-- The slot that is returned is that of the path. -/
theorem getElem?_keys_slot (hs : s.Faithful) {stored : Stored}
    (h : (s.compile path).1 = .ok stored) :
    (s.compile path).2.1.keys[stored.slot]? = some path := by
  rcases hs.compile_cases path with ⟨entry, hf, hc, _⟩ | ⟨q, _, hq, hc⟩ | ⟨e, _, hc⟩
  · rw [hc] at h ⊢
    cases h
    exact getElem?_keys_of_find? hf
  · rw [hc] at h ⊢
    cases h
    simp [keys, size, Query.source_of_compile hq]
  · rw [hc] at h
    cases h

/-! ## One path more -/

theorem accounts_empty : empty.Accounts [] [] where
  nodup := List.nodup_nil
  mem_keys := fun _ => Iff.rfl
  compiled := rfl
  failed := rfl
  hits := List.Perm.refl []

theorem Accounts.hit (h : s.Accounts asked log) (hp : path ∈ s.keys) {q : Query}
    (hq : Query.compile path = .ok q) : s.Accounts (asked ++ [path]) (log ++ [.hit path]) where
  nodup := h.nodup
  mem_keys := by
    intro p
    rw [List.filter_append, List.mem_append, ← h.mem_keys]
    refine ⟨.inl, fun hm => hm.elim id fun hm => ?_⟩
    obtain rfl := List.mem_singleton.mp (List.mem_of_mem_filter hm)
    exact hp
  compiled := by simpa [List.filterMap_cons, LogEntry.compiled?] using h.compiled
  failed := by
    simpa [List.filterMap_cons, LogEntry.failed?, Query.failure?, hq] using h.failed
  hits := by
    simpa [List.filterMap_cons, LogEntry.hit?, Query.compiles, hq] using h.hits.append_right [path]

theorem Accounts.stored (h : s.Accounts asked log) (hp : path ∉ s.keys) {q : Query}
    (hq : Query.compile path = .ok q) :
    Accounts ⟨s.queries ++ [q]⟩ (asked ++ [path])
      (log ++ [.compiled path q.steps.length]) where
  nodup := by
    rw [keys_append, Query.source_of_compile hq, ← List.concat_eq_append]
    exact List.Nodup.concat hp h.nodup
  mem_keys := by
    intro p
    simp [keys_append, Query.source_of_compile hq, h.mem_keys, Query.compiles, hq]
  compiled := by
    simp [LogEntry.compiled?, h.compiled, Query.source_of_compile hq]
  failed := by
    simpa [List.filterMap_cons, LogEntry.failed?, Query.failure?, hq] using h.failed
  hits := by
    have hswap : (s.keys ++ [path] ++ log.filterMap LogEntry.hit?).Perm
        (s.keys ++ log.filterMap LogEntry.hit? ++ [path]) := by
      rw [List.append_assoc, List.append_assoc]
      exact List.perm_append_comm.append_left s.keys
    have hasked := hswap.trans (h.hits.append_right [path])
    simpa [List.filterMap_cons, keys_append, Query.source_of_compile hq, LogEntry.hit?,
      Query.compiles, hq] using hasked

theorem Accounts.refused (h : s.Accounts asked log) {e : PathError}
    (he : Query.compile path = .error e) :
    s.Accounts (asked ++ [path]) (log ++ [.failed path e]) where
  nodup := h.nodup
  mem_keys := by simpa [Query.compiles, he] using h.mem_keys
  compiled := by simpa [List.filterMap_cons, LogEntry.compiled?] using h.compiled
  failed := by simp [LogEntry.failed?, Query.failure?, he, h.failed]
  hits := by simpa [List.filterMap_cons, LogEntry.hit?, Query.compiles, he] using h.hits

theorem Accounts.compile (h : s.Accounts asked log) (hs : s.Faithful) (path : String) :
    (s.compile path).2.1.Accounts (asked ++ [path]) (log ++ [(s.compile path).2.2]) := by
  rcases hs.compile_cases path with ⟨entry, hf, hc, hq⟩ | ⟨q, hn, hq, hc⟩ | ⟨e, he, hc⟩
  · rw [hc]
    exact h.hit (List.mem_of_getElem? (getElem?_keys_of_find? hf)) hq
  · rw [hc]
    exact h.stored hn hq
  · rw [hc]
    exact h.refused he

/-- As many queries are stored as there are distinct paths that compile. -/
theorem Accounts.size_eq (h : s.Accounts asked log) :
    s.size = (asked.filter Query.compiles).toFinset.card := by
  have hsame : s.keys.toFinset = (asked.filter Query.compiles).toFinset := by
    ext path
    rw [List.mem_toFinset, List.mem_toFinset]
    exact h.mem_keys path
  rw [← hsame, List.toFinset_card_of_nodup h.nodup, keys, List.length_map]
  rfl

theorem Accounts.isEmpty_eq (h : s.Accounts asked log) :
    s.isEmpty = (asked.filter Query.compiles).isEmpty := by
  have hkeys : s.isEmpty = s.keys.isEmpty := by simp [isEmpty, keys]
  rw [hkeys, Bool.eq_iff_iff, List.isEmpty_iff, List.isEmpty_iff, List.eq_nil_iff_forall_not_mem,
    List.eq_nil_iff_forall_not_mem]
  exact forall_congr' fun path => not_congr (h.mem_keys path)

end Store
end PathQuery
