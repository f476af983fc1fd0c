import Mathlib.Tactic.Common
import PathQuery.Token.Reading

/-! What a reader says about tokens, without the bound that makes it end.
`Reads x a rest` holds when `x` read `a` and left `rest`. A reader written as a `do` block turns
into a statement about its parts by `simp`, so that no later proof opens a reading. -/
namespace PathQuery

def Reads {α : Type} {n : Nat} (x : Except Token.Kind (Reading α n)) (a : α)
    (rest : List Token) : Prop :=
  ∃ h, x = .ok ⟨a, rest, h⟩

/-- The same for a reader that may find nothing to read. -/
def ReadsSome {α : Type} {n : Nat} (x : Except Token.Kind (Option (Reading α n))) (a : α)
    (rest : List Token) : Prop :=
  ∃ h, x = .ok (some ⟨a, rest, h⟩)

namespace Reading

variable {α β : Type} {n m : Nat}

@[simp] theorem value_within (r : Reading α n) (h : n ≤ m) : (r.within h).value = r.value := rfl

@[simp] theorem rest_within (r : Reading α n) (h : n ≤ m) : (r.within h).rest = r.rest := rfl

@[simp] theorem value_below (r : Reading α n) (h : n < m) : (r.below h).value = r.value := rfl

@[simp] theorem rest_below (r : Reading α n) (h : n < m) : (r.below h).rest = r.rest := rfl

@[simp] theorem value_skip (r : Reading α n) (k : Nat) : (r.skip k).value = r.value := rfl

@[simp] theorem rest_skip (r : Reading α n) (k : Nat) : (r.skip k).rest = r.rest := rfl

@[simp] theorem value_map (f : α → β) (r : Reading α n) : (r.map f).value = f r.value := rfl

@[simp] theorem rest_map (f : α → β) (r : Reading α n) : (r.map f).rest = r.rest := rfl

@[simp] theorem value_upTo (a : α) (ts : List Token) : (upTo a ts).value = a := rfl

@[simp] theorem rest_upTo (a : α) (ts : List Token) : (upTo a ts).rest = ts := rfl

end Reading

namespace Reads

variable {α β : Type} {n m : Nat} {a : α} {rest : List Token}

theorem shorter {x : Except Token.Kind (Reading α n)} (h : Reads x a rest) : rest.length < n :=
  h.1

/-- A reader has one result. -/
theorem unique {x : Except Token.Kind (Reading α n)} {b : α} {rest' : List Token}
    (h : Reads x a rest) (h' : Reads x b rest') : a = b ∧ rest = rest' := by
  obtain ⟨_, rfl⟩ := h
  obtain ⟨_, he⟩ := h'
  cases he
  exact ⟨rfl, rfl⟩

@[simp] theorem ok_iff {r : Reading α n} :
    Reads (.ok r) a rest ↔ r.value = a ∧ r.rest = rest := by
  constructor
  · rintro ⟨_, he⟩
    cases he
    exact ⟨rfl, rfl⟩
  · rintro ⟨rfl, rfl⟩
    exact ⟨r.shorter, rfl⟩

@[simp] theorem not_error {k : Token.Kind} :
    ¬ Reads (.error k : Except _ (Reading α n)) a rest := by
  rintro ⟨_, h⟩
  cases h

@[simp] theorem not_unexpected {ts : List Token} :
    ¬ Reads (unexpected ts : Except _ (Reading α n)) a rest := not_error

@[simp] theorem bind_iff {x : Except Token.Kind (Reading β m)}
    {f : Reading β m → Except Token.Kind (Reading α n)} :
    Reads (x >>= f) a rest ↔
      ∃ b mid, ∃ h : Reads x b mid, Reads (f ⟨b, mid, h.shorter⟩) a rest := by
  cases x with
  | error k => simp [bind, Except.bind]
  | ok r =>
    constructor
    · intro h
      exact ⟨r.value, r.rest, ⟨r.shorter, rfl⟩, h⟩
    · rintro ⟨_, _, ⟨_, he⟩, h⟩
      cases he
      exact h

@[simp] theorem map_iff {x : Except Token.Kind (Reading β m)} {f : Reading β m → Reading α n} :
    Reads (f <$> x) a rest ↔
      ∃ b mid, ∃ h : Reads x b mid,
        (f ⟨b, mid, h.shorter⟩).value = a ∧ (f ⟨b, mid, h.shorter⟩).rest = rest := by
  have hx : f <$> x = x >>= fun r => .ok (f r) := by cases x <;> rfl
  simp [hx]

@[simp] theorem before_iff {s : Symbol} {b : α} {mid : List Token} {h : mid.length < n} :
    Reads (Reading.before s ⟨b, mid, h⟩) a rest ↔ b = a ∧ mid = .symbol s :: rest := by
  cases mid with
  | nil => simp [Reading.before]
  | cons t mid =>
    rw [Reading.before]
    split <;> simp_all

end Reads

namespace ReadsSome

variable {α β : Type} {n m : Nat} {a : α} {rest : List Token}

theorem shorter {x : Except Token.Kind (Option (Reading α n))} (h : ReadsSome x a rest) :
    rest.length < n :=
  h.1

@[simp] theorem ok_iff {r : Reading α n} :
    ReadsSome (.ok (some r)) a rest ↔ r.value = a ∧ r.rest = rest := by
  simp [ReadsSome, ← Reads.ok_iff, Reads]

@[simp] theorem not_none : ¬ ReadsSome (.ok none : Except _ (Option (Reading α n))) a rest := by
  simp [ReadsSome]

@[simp] theorem not_error {k : Token.Kind} :
    ¬ ReadsSome (.error k : Except _ (Option (Reading α n))) a rest := by
  simp [ReadsSome]

@[simp] theorem map_iff {x : Except Token.Kind (Reading β m)} {f : Reading β m → Reading α n} :
    ReadsSome ((fun r => some (f r)) <$> x) a rest ↔ Reads (f <$> x) a rest := by
  cases x <;> simp [ReadsSome, Reads, Functor.map, Except.map]

@[simp] theorem some_map_iff {x : Except Token.Kind (Reading α n)} :
    ReadsSome (some <$> x) a rest ↔ Reads x a rest := by
  cases x <;> simp [ReadsSome, Reads, Functor.map, Except.map]

end ReadsSome
end PathQuery
