import Mathlib.Data.List.Forall2
import PathQuery.Proofs.Session.Accounts

/-! What a session has come to after some commands.
The store and the log account for all paths that the commands asked for, and the stored queries that
were returned differ exactly where their paths do. -/
namespace PathQuery.Session

/-- The path that a command asks the store for. -/
def Command.path? : Command → Option String
  | .compile path => some path
  | .query path _ => some path
  | .matcher _ path => some path
  | .call _ _ => none
  | .size => none
  | .isEmpty => none

/-- The path of a command that returns a stored query. -/
def Command.returns? : Command → Option String
  | .compile path => if Query.compiles path then some path else none
  | _ => none

/-- The paths that some commands ask the store for. -/
def asked (cs : List Command) : List String := cs.filterMap Command.path?

/-- Those of them that compile. -/
def succeeded (cs : List Command) : List String := (asked cs).filter Query.compiles

/-- The paths of the stored queries that some commands return. -/
def returnedPaths (cs : List Command) : List String := cs.filterMap Command.returns?

/-- A session on a fresh store, of the given capacity if there is one. -/
def fresh (capacity : Option Nat) : Session := ofStore (capacity.elim .empty .withCapacity)

/-- The session after some commands. -/
def after (s : Session) (cs : List Command) : Session := cs.foldl (fun t c => (t.step c).1) s

/-- What is logged during some commands. -/
def logged (s : Session) (cs : List Command) : List LogEntry := (s.run cs).flatMap Report.log

variable {s : Session} {c : Command} {cs : List Command} {path : String}

/-! ## One command -/

theorem store_withQuery {use : Session → Stored → Session × Answer}
    (huse : ∀ t stored, (use t stored).1.store = t.store) (s : Session) (path : String) :
    (s.withQuery path use).1.store = (s.store.compile path).2.1 := by
  unfold withQuery
  rcases s.store.compile path with ⟨result, store, entry⟩
  cases result with
  | ok stored => exact huse _ stored
  | error e => rfl

theorem log_withQuery (use : Session → Stored → Session × Answer) (s : Session) (path : String) :
    (s.withQuery path use).2.2 = [(s.store.compile path).2.2] := by
  unfold withQuery
  rcases s.store.compile path with ⟨result, store, entry⟩
  cases result <;> rfl

/-- The store after a command is that after compiling the path which the command asks for. -/
theorem store_answer (s : Session) (c : Command) :
    (s.answer c).1.store = c.path?.elim s.store fun path => (s.store.compile path).2.1 := by
  cases c with
  | compile path => exact store_withQuery (fun _ _ => rfl) s path
  | query path document => exact store_withQuery (fun _ _ => rfl) s path
  | matcher name path => exact store_withQuery (fun _ _ => rfl) s path
  | call name document =>
    rw [answer]
    split <;> rfl
  | size => rfl
  | isEmpty => rfl

theorem log_answer (s : Session) (c : Command) :
    (s.answer c).2.2 = c.path?.elim [] fun path => [(s.store.compile path).2.2] := by
  cases c with
  | compile path => exact log_withQuery _ s path
  | query path document => exact log_withQuery _ s path
  | matcher name path => exact log_withQuery _ s path
  | call name document =>
    rw [answer]
    split <;> rfl
  | size => rfl
  | isEmpty => rfl

/-- A command whose path does not compile changes nothing at all. -/
theorem answer_of_error (hs : s.store.Faithful) {e : PathError} (hc : c.path? = some path)
    (he : Query.compile path = .error e) : s.answer c = (s, .failed e, [.failed path e]) := by
  have hstore : s.store.compile path = (.error e, s.store, .failed path e) :=
    Store.compile_failed (hs.find?_of_error he) he
  cases c with
  | compile path =>
    cases hc
    simp [answer, withQuery, hstore]
  | query path document =>
    cases hc
    simp [answer, withQuery, hstore]
  | matcher name path =>
    cases hc
    simp [answer, withQuery, hstore]
  | _ => cases hc

theorem compile_of_withQuery_failed (hs : s.store.Faithful)
    {use : Session → Stored → Session × Answer} {e : PathError}
    (huse : ∀ t stored, (use t stored).2 ≠ .failed e)
    (h : (s.withQuery path use).2.1 = .failed e) : Query.compile path = .error e := by
  rcases hs.compile_cases path with ⟨entry, _, hc, _⟩ | ⟨q, _, _, hc⟩ | ⟨e', he, hc⟩
  · simp [withQuery, hc, huse] at h
  · simp [withQuery, hc, huse] at h
  · simp only [withQuery, hc, Answer.failed.injEq] at h
    rw [he, h]

/-- A command fails only because its path does not compile. -/
theorem compile_of_answer_failed (hs : s.store.Faithful) {e : PathError}
    (h : (s.answer c).2.1 = .failed e) :
    ∃ path, c.path? = some path ∧ Query.compile path = .error e := by
  cases c with
  | compile path => exact ⟨path, rfl, compile_of_withQuery_failed hs (by simp) h⟩
  | query path document => exact ⟨path, rfl, compile_of_withQuery_failed hs (by simp) h⟩
  | matcher name path => exact ⟨path, rfl, compile_of_withQuery_failed hs (by simp) h⟩
  | call name document =>
    rw [answer] at h
    split at h <;> cases h
  | size => cases h
  | isEmpty => cases h

theorem Command.of_returns? (hc : c.returns? = some path) :
    c = .compile path ∧ ∃ q, Query.compile path = .ok q := by
  cases c with
  | compile p =>
    cases hq : Query.compile p with
    | ok q =>
      obtain rfl : p = path := by simpa [returns?, Query.compiles, hq] using hc
      exact ⟨rfl, q, hq⟩
    | error e => simp [returns?, Query.compiles, hq] at hc
  | _ => cases hc

/-- A compilation that succeeds returns the slot of its path, and answers where it was returned first. -/
theorem answer_compile_of_ok (hs : s.store.Faithful) {q : Query}
    (hq : Query.compile path = .ok q) :
    ∃ slot, (s.answer (.compile path)).1.store.keys[slot]? = some path ∧
      (s.answer (.compile path)).1.returned = s.returned ++ [slot] ∧
      (s.answer (.compile path)).2.1 =
        .compiled q (s.returned.findIdx? fun earlier => earlier = slot) := by
  obtain ⟨slot, hslot⟩ := hs.compile_of_ok hq
  have hkey := Store.getElem?_keys_slot hs hslot
  refine ⟨slot, by rw [store_answer]; exact hkey, ?_, ?_⟩
  · simp [answer, withQuery, hslot]
  · simp [answer, withQuery, hslot]

/-- Any other command returns no stored query. -/
theorem returned_answer (hs : s.store.Faithful) (hc : c.returns? = none) :
    (s.answer c).1.returned = s.returned := by
  have huse : ∀ path (use : Session → Stored → Session × Answer),
      (∀ t stored, (use t stored).1.returned = t.returned) →
      (s.withQuery path use).1.returned = s.returned := by
    intro path use huse
    unfold withQuery
    rcases s.store.compile path with ⟨result, store, entry⟩
    cases result with
    | ok stored => exact huse _ stored
    | error e => rfl
  cases c with
  | compile path =>
    cases hq : Query.compile path with
    | ok q => simp [Command.returns?, Query.compiles, hq] at hc
    | error e => rw [answer_of_error hs rfl hq]
  | query path document => exact huse path _ fun _ _ => rfl
  | matcher name path => exact huse path _ fun _ _ => rfl
  | call name document =>
    rw [answer]
    split <;> rfl
  | size => rfl
  | isEmpty => rfl

/-! ## All commands -/

/-- What holds of a session and everything that it has logged, after some commands on a fresh store. -/
structure Tracks (s : Session) (cs : List Command) (log : List LogEntry) : Prop where
  faithful : s.store.Faithful
  accounts : s.store.Accounts (asked cs) log
  /-- The stored query that was returned for a path is the one with this key. -/
  returned : List.Forall₂ (fun slot path => s.store.keys[slot]? = some path) s.returned
    (returnedPaths cs)

variable {log : List LogEntry}

theorem tracks_fresh (capacity : Option Nat) : Tracks (fresh capacity) [] [] := by
  cases capacity <;> exact ⟨Store.faithful_empty, Store.accounts_empty, .nil⟩

theorem getElem?_keys_answer (hs : s.store.Faithful) {i : Nat} {key : String}
    (h : s.store.keys[i]? = some key) (c : Command) :
    (s.answer c).1.store.keys[i]? = some key := by
  rw [store_answer]
  cases c.path? with
  | none => exact h
  | some path => exact Store.getElem?_keys_compile hs h path

theorem Tracks.answer (h : Tracks s cs log) (c : Command) :
    Tracks (s.answer c).1 (cs ++ [c]) (log ++ (s.answer c).2.2) where
  faithful := by
    rw [store_answer]
    cases c.path? with
    | none => exact h.faithful
    | some path => exact h.faithful.compile path
  accounts := by
    rw [store_answer, log_answer]
    cases hc : c.path? with
    | none => simpa [asked, List.filterMap_cons, hc] using h.accounts
    | some path =>
      simpa [asked, List.filterMap_cons, hc] using h.accounts.compile h.faithful path
  returned := by
    have hkept : List.Forall₂ (fun slot path => (s.answer c).1.store.keys[slot]? = some path)
        s.returned (returnedPaths cs) :=
      h.returned.imp fun _ _ hslot => getElem?_keys_answer h.faithful hslot c
    cases hc : c.returns? with
    | none =>
      rw [returned_answer h.faithful hc]
      simpa [returnedPaths, List.filterMap_cons, hc] using hkept
    | some path =>
      obtain ⟨rfl, q, hq⟩ := Command.of_returns? hc
      obtain ⟨slot, hslot, hreturned, _⟩ := answer_compile_of_ok h.faithful hq
      rw [hreturned]
      simpa [returnedPaths, List.filterMap_cons, hc] using
        List.rel_append hkept (.cons hslot .nil)

theorem after_append (s : Session) (cs : List Command) (c : Command) :
    s.after (cs ++ [c]) = ((s.after cs).answer c).1 := by
  simp [after, step]

theorem logged_append (s : Session) (cs : List Command) (c : Command) :
    s.logged (cs ++ [c]) = s.logged cs ++ ((s.after cs).answer c).2.2 := by
  induction cs generalizing s with
  | nil => simp [logged, run, after, step]
  | cons d cs ih =>
    have ih := ih (s.step d).1
    simp only [logged, List.cons_append, run, List.flatMap_cons, List.append_assoc] at ih ⊢
    rw [ih]
    rfl

theorem tracks_run (capacity : Option Nat) (cs : List Command) :
    Tracks ((fresh capacity).after cs) cs ((fresh capacity).logged cs) := by
  induction cs using List.reverseRecOn with
  | nil => exact tracks_fresh capacity
  | append_singleton cs c ih =>
    rw [after_append, logged_append]
    exact ih.answer c

theorem faithful_after (hs : s.store.Faithful) (cs : List Command) :
    (s.after cs).store.Faithful := by
  induction cs generalizing s with
  | nil => exact hs
  | cons c cs ih =>
    refine ih ?_
    show (s.answer c).1.store.Faithful
    rw [store_answer]
    cases c.path? with
    | none => exact hs
    | some path => exact hs.compile path

/-! ## Identity -/

/-- Where every key is there once, a slot is known by its key. -/
theorem slot_eq_iff {keys : List String} (hk : keys.Nodup) {i j : Nat} {p q : String}
    (hi : keys[i]? = some p) (hj : keys[j]? = some q) : i = j ↔ p = q := by
  obtain ⟨hi, rfl⟩ := List.getElem?_eq_some_iff.mp hi
  obtain ⟨hj, rfl⟩ := List.getElem?_eq_some_iff.mp hj
  exact hk.getElem_inj_iff.symm

theorem Tracks.returned_eq_iff (h : Tracks s cs log) :
    ∀ a ∈ s.returned.zip (returnedPaths cs), ∀ b ∈ s.returned.zip (returnedPaths cs),
      a.1 = b.1 ↔ a.2 = b.2 := by
  intro a ha b hb
  have hkey : ∀ r ∈ s.returned.zip (returnedPaths cs), s.store.keys[r.1]? = some r.2 :=
    fun _ hr => (List.forall₂_iff_zip.mp h.returned).2 hr
  exact slot_eq_iff h.accounts.nodup (hkey a ha) (hkey b hb)

theorem findIdx?_of_forall₂ {α β : Type} {as : List α} {bs : List β} {p : α → Bool} {q : β → Bool}
    (h : List.Forall₂ (fun a b => p a = q b) as bs) : as.findIdx? p = bs.findIdx? q := by
  induction h with
  | nil => rfl
  | cons hab _ ih => rw [List.findIdx?_cons, List.findIdx?_cons, hab, ih]

/-- A compilation that succeeds answers which earlier one was the first of the same path. -/
theorem Tracks.answer_compiled (h : Tracks s cs log) {q : Query} {sameAs : Option Nat}
    (ha : (s.answer (.compile path)).2.1 = .compiled q sameAs) :
    Query.compile path = .ok q ∧ sameAs = (returnedPaths cs).findIdx? fun p => p = path := by
  cases hq : Query.compile path with
  | error e =>
    rw [answer_of_error h.faithful rfl hq] at ha
    cases ha
  | ok r =>
    obtain ⟨slot, hslot, _, hcompiled⟩ := answer_compile_of_ok h.faithful hq
    rw [hcompiled] at ha
    cases ha
    refine ⟨rfl, findIdx?_of_forall₂ (h.returned.imp fun earlier p hearlier => ?_)⟩
    have hkept := getElem?_keys_answer h.faithful hearlier (.compile path)
    have hnodup := (h.answer (.compile path)).accounts.nodup
    exact decide_eq_decide.mpr (slot_eq_iff hnodup hkept hslot)

/-- After any commands on a fresh store of any capacity, the store and the log account for all of
them, and the number of stored queries is that of the different paths that compiled. The same stored
query has been returned exactly for the same path. A command that fails leaves everything as it is,
and fails in the same way ever after. -/
theorem accounts_run (capacity : Option Nat) (cs : List Command) :
    let s := (fresh capacity).after cs
    s.store.Accounts (asked cs) ((fresh capacity).logged cs) ∧
    (s.answer .size).2.1 = .count (succeeded cs).toFinset.card ∧
    (s.answer .isEmpty).2.1 = .flag (succeeded cs).isEmpty ∧
    s.returned.length = (returnedPaths cs).length ∧
    (∀ a ∈ s.returned.zip (returnedPaths cs), ∀ b ∈ s.returned.zip (returnedPaths cs),
      a.1 = b.1 ↔ a.2 = b.2) ∧
    (∀ path q sameAs, (s.answer (.compile path)).2.1 = .compiled q sameAs →
      sameAs = (returnedPaths cs).findIdx? fun p => p = path) ∧
    ∀ c e, (s.answer c).2.1 = .failed e →
      (s.answer c).1 = s ∧ ∀ more, ((s.after more).answer c).2.1 = .failed e := by
  intro s
  have h : Tracks s cs ((fresh capacity).logged cs) := tracks_run capacity cs
  refine ⟨h.accounts, congrArg Answer.count h.accounts.size_eq,
    congrArg Answer.flag h.accounts.isEmpty_eq, h.returned.length_eq, h.returned_eq_iff,
    fun path q sameAs ha => (h.answer_compiled ha).2, fun c e he => ?_⟩
  obtain ⟨path, hc, herror⟩ := compile_of_answer_failed h.faithful he
  refine ⟨by rw [answer_of_error h.faithful hc herror], fun more => ?_⟩
  rw [answer_of_error (faithful_after h.faithful more) hc herror]

/-- A path that a matcher has stored is returned, and a path that fails is not stored. -/
theorem accounts_run_sample :
    let cs : List Command := [.matcher "m" "$", .compile "[", .compile "$"]
    let s := (fresh (some 4)).after cs
    s.store.keys = ["$"] ∧ s.returned = [0] ∧
    (s.answer (.compile "[")).2.1 = .failed (.unexpected (.symbol .bracketOpen)) ∧
    (s.answer (.compile "[")).1 = s ∧ (s.answer .size).2.1 = .count (succeeded cs).toFinset.card := by
  intro cs s
  have hroot : Query.compile "$" = .ok ⟨"$", [.root]⟩ := by with_unfolding_all rfl
  have hbracket : Query.compile "[" = .error (.unexpected (.symbol .bracketOpen)) := by with_unfolding_all rfl
  have hstate : s = ⟨⟨[⟨"$", [.root]⟩]⟩, [("m", ⟨"$", [.root]⟩)], [0]⟩ := by
    simp [s, cs, fresh, ofStore, Store.withCapacity, Store.empty, after, step, answer, withQuery,
      Store.compile, Store.find?, Store.size, hroot, hbracket]
  have hfailed : (s.answer (.compile "[")).2.1 = .failed (.unexpected (.symbol .bracketOpen)) := by
    simp [hstate, answer, withQuery, Store.compile, Store.find?, hbracket]
  obtain ⟨_, hsize, _, _, _, _, hleft⟩ := accounts_run (some 4) cs
  exact ⟨by rw [hstate]; rfl, by rw [hstate], hfailed, (hleft _ _ hfailed).1, hsize⟩

end PathQuery.Session
