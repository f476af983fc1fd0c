import PathQuery.Token.Basic

/-! Cutting lists of tokens. An operation whose bounds lie outside the list has no result. -/
namespace PathQuery.Token.Stream

/-- The tokens from position `a` up to position `b`. -/
def slice? (ts : List Token) (a b : Nat) : Option (List Token) :=
  if a ≤ b ∧ b ≤ ts.length then some ((ts.take b).drop a) else none

/-- The first `n` tokens. -/
def take? (ts : List Token) (n : Nat) : Option (List Token) := slice? ts 0 n

/-- The tokens from position `n` on. -/
def drop? (ts : List Token) (n : Nat) : Option (List Token) := slice? ts n ts.length

/-- The first `n` tokens and the others. -/
def split? (ts : List Token) (n : Nat) : Option (List Token × List Token) := do
  return (← take? ts n, ← drop? ts n)

/-- The position of the first token of a kind. -/
def position? (ts : List Token) (kind : Kind) : Option Nat := ts.findIdx? fun t => t.kind = kind

/-- How many tokens are missing for `n` of them; none if there are enough. -/
def missing? (ts : List Token) (n : Nat) : Option Nat :=
  if n ≤ ts.length then none else some (n - ts.length)

end PathQuery.Token.Stream
