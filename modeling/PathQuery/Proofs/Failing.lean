import PathQuery.Proofs.Reading

/-! What a reader that fails says about tokens.
`Fails x k` holds when `x` blames a token of kind `k`. A `do` block fails where one of its parts
does and everything before that part has been read; `simp` splits it accordingly. -/
namespace PathQuery

def Fails {α : Type} (x : Except Token.Kind α) (k : Token.Kind) : Prop := x = .error k

namespace Fails

variable {α β : Type} {n m : Nat} {k : Token.Kind}

@[simp] theorem not_ok {a : α} : ¬ Fails (.ok a) k := by
  simp [Fails]

@[simp] theorem not_pure {a : α} : ¬ Fails (pure a) k := not_ok

@[simp] theorem error_iff {k' : Token.Kind} : Fails (.error k' : Except _ α) k ↔ k' = k := by
  simp [Fails]

@[simp] theorem unexpected_iff {ts : List Token} :
    Fails (unexpected ts : Except _ α) k ↔ Token.nextKind ts = k :=
  error_iff

@[simp] theorem map_iff {x : Except Token.Kind α} {f : α → β} : Fails (f <$> x) k ↔ Fails x k := by
  cases x <;> simp [Fails, Functor.map, Except.map]

@[simp] theorem bind_iff {x : Except Token.Kind (Reading β m)}
    {f : Reading β m → Except Token.Kind α} :
    Fails (x >>= f) k ↔
      Fails x k ∨ ∃ b mid, ∃ h : Reads x b mid, Fails (f ⟨b, mid, h.shorter⟩) k := by
  cases x with
  | error k' => simp [bind, Except.bind]
  | ok r =>
    constructor
    · intro h
      exact .inr ⟨r.value, r.rest, ⟨r.shorter, rfl⟩, h⟩
    · rintro (h | ⟨_, _, ⟨_, he⟩, h⟩)
      · exact absurd h not_ok
      · cases he
        exact h

@[simp] theorem before_iff {s : Symbol} {b : α} {mid : List Token} {h : mid.length < n} :
    Fails (Reading.before s ⟨b, mid, h⟩) k ↔
      mid.head? ≠ some (.symbol s) ∧ Token.nextKind mid = k := by
  cases mid with
  | nil => simp [Reading.before, Token.nextKind]
  | cons t mid =>
    rw [Reading.before]
    split <;> simp_all [Token.nextKind]

/-- A reader blames one kind. -/
theorem unique {x : Except Token.Kind α} {k' : Token.Kind} (h : Fails x k) (h' : Fails x k') :
    k = k' :=
  Except.error.inj (h.symm.trans h')

/-- What has been read did not fail. -/
theorem not_reads {x : Except Token.Kind (Reading α n)} {a : α} {rest : List Token}
    (h : Fails x k) : ¬ Reads x a rest := by
  rw [Fails] at h
  rw [h]
  exact Reads.not_error

end Fails
end PathQuery
