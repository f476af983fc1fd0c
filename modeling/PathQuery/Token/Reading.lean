import PathQuery.Token.Basic

/-! Results of reading from a list of tokens.
What has been read comes with the tokens after it and the fact that they are fewer, which is what
makes the readers of a recursive grammar end. A reader that fails names the kind of token that it
could not accept. -/
namespace PathQuery

/-- Something read from tokens, with fewer than `n` tokens left after it. -/
structure Reading (α : Type) (n : Nat) where
  value : α
  rest : List Token
  shorter : rest.length < n

/-- The result of reading something from tokens: at least one of them is used up. -/
abbrev Read (α : Type) (ts : List Token) := Except Token.Kind (Reading α ts.length)

/-- The result of reading something that may use up no token at all. -/
abbrev ReadMore (α : Type) (ts : List Token) := Except Token.Kind (Reading α (ts.length + 1))

namespace Reading

variable {α β : Type} {n m : Nat}

/-- A value read up to `rest`, with one token used up. -/
def upTo (value : α) (rest : List Token) : Reading α (rest.length + 1) :=
  ⟨value, rest, Nat.lt_succ_self _⟩

def map (f : α → β) (r : Reading α n) : Reading β n := ⟨f r.value, r.rest, r.shorter⟩

/-- Forgets part of how many tokens were used up. -/
def within (r : Reading α n) (h : n ≤ m) : Reading α m :=
  ⟨r.value, r.rest, Nat.lt_of_lt_of_le r.shorter h⟩

/-- Forgets part of how many tokens were used up, and at least one of them. -/
def below (r : Reading α n) (h : n < m) : Reading α m := r.within (Nat.le_of_lt h)

/-- Counts `k` more tokens, which were used up before. -/
def skip (k : Nat) (r : Reading α n) : Reading α (n + k) := r.within (Nat.le_add_right n k)

/-- Requires the symbol `s` to follow. -/
def before (s : Symbol) : Reading α n → Except Token.Kind (Reading α n)
  | ⟨_, [], _⟩ => .error .finish
  | ⟨value, t :: rest, h⟩ =>
    if t = .symbol s then .ok ⟨value, rest, Nat.lt_of_succ_lt h⟩ else .error t.kind

end Reading

/-- The failure to read anything: the next token is at fault. -/
def unexpected {α : Type} (ts : List Token) : Except Token.Kind α := .error (Token.nextKind ts)

end PathQuery
