import Mathlib.Tactic.Common
import PathQuery.Token.Basic

/-! Rules with an order of choice.
A rule takes tokens from the front of a list. A rule that does not apply leaves the choice to the
next one, unless it has become final by then. Two more failures watch over rules that would not come
to an end: a repeated rule that takes nothing, and a call that leads nowhere. No rule recovers from
these two, so a result that is neither of them shows that neither arose on the way to it. `Uses`
says this of a rule together with how many tokens it takes. -/
namespace PathQuery

/-- How a rule fails. -/
inductive Rule.Failure where
  /-- The rule does not apply, and another one may. -/
  | soft (kind : Token.Kind)
  /-- No other rule is tried. -/
  | final (kind : Token.Kind)
  /-- A repeated rule took no token. -/
  | idle
  /-- A rule was called that does not lead on. -/
  | astray

/-- A rule: what it makes of the tokens it takes, with the tokens after them. -/
abbrev Rule (α : Type) := List Token → Except Rule.Failure (α × List Token)

namespace Rule

variable {α β : Type}

instance : Monad Rule where
  pure a ts := .ok (a, ts)
  bind p f ts :=
    match p ts with
    | .ok (a, rest) => f a rest
    | .error e => .error e

/-- The second rule is tried where the first one does not apply. -/
instance : OrElse (Rule α) where
  orElse p q ts :=
    match p ts with
    | .error (.soft _) => q () ts
    | r => r

/-- Takes the next token, if `f` makes something of it. -/
def accept (f : Token → Option α) : Rule α := fun ts =>
  match ts.head?.bind f with
  | some a => .ok (a, ts.tail)
  | none => .error (.soft (Token.nextKind ts))

/-- Takes a symbol. -/
def symbol (s : Symbol) : Rule Unit := accept fun t => if t = .symbol s then some () else none

/-- Fails for good. -/
def fail (k : Token.Kind) : Rule α := fun _ => .error (.final k)

/-- The rule once it is clear that no other one can apply. -/
def commit (p : Rule α) : Rule α := fun ts =>
  match p ts with
  | .error (.soft k) => .error (.final k)
  | r => r

def optional (p : Rule α) : Rule (Option α) := some <$> p <|> pure none

/-- The rule again and again, until it does not apply. -/
def repeated (p : Rule α) : Rule (List α) := fun ts =>
  match p ts with
  | .ok (a, rest) =>
    if rest.length < ts.length then do
      let (more, after) ← repeated p rest
      return (a :: more, after)
    else .error .idle
  | .error (.soft _) => .ok ([], ts)
  | .error e => .error e
termination_by ts => ts.length

/-- A comma, and the rule after it. -/
def next (p : Rule α) : Rule α := do
  symbol .comma
  p

/-- One or more, with commas between them. -/
def separated (p : Rule α) : Rule (List α) := do
  let first ← p
  let more ← repeated (next p)
  return first :: more

/-- Something between two symbols. After the first of them no other rule is tried. -/
def enclosed (opening : Symbol) (p : Rule α) (closing : Symbol) : Rule α := do
  symbol opening
  commit do
    let a ← p
    symbol closing
    return a

/-! ## What a rule does on given tokens -/

variable {p q : Rule α} {f : α → Rule β} {ts rest : List Token} {a : α} {k : Token.Kind}

@[simp] theorem pure_apply : (pure a : Rule α) ts = .ok (a, ts) := rfl

@[simp] theorem bind_apply :
    (p >>= f) ts = match p ts with
      | .ok (a, rest) => f a rest
      | .error e => .error e := rfl

@[simp] theorem map_apply {g : α → β} :
    (g <$> p) ts = match p ts with
      | .ok (a, rest) => .ok (g a, rest)
      | .error e => .error e := rfl

@[simp] theorem orElse_apply :
    (p <|> q) ts = match p ts with
      | .error (.soft _) => q ts
      | r => r := rfl

theorem orElse_of_soft (h : p ts = .error (.soft k)) : (p <|> q) ts = q ts := by
  rw [orElse_apply, h]

@[simp] theorem fail_apply : (fail k : Rule α) ts = .error (.final k) := rfl

theorem accept_of_some {g : Token → Option α} {t : Token} (h : g t = some a) :
    accept g (t :: ts) = .ok (a, ts) := by
  simp [accept, h]

theorem accept_of_none {g : Token → Option α} (h : ∀ t ∈ ts.head?, g t = none) :
    accept g ts = .error (.soft (Token.nextKind ts)) := by
  have : ts.head?.bind g = none := by simpa [Option.bind_eq_none_iff] using h
  simp [accept, this]

@[simp] theorem symbol_cons {s : Symbol} : symbol s (.symbol s :: ts) = .ok ((), ts) :=
  accept_of_some (if_pos rfl)

@[simp] theorem symbol_of_ne {s : Symbol} (h : ¬ ts.head? = some (.symbol s)) :
    symbol s ts = .error (.soft (Token.nextKind ts)) :=
  accept_of_none fun t ht => if_neg (by rintro rfl; exact h ht)

theorem next_comma : next p (.symbol .comma :: ts) = p ts := by
  simp only [next, bind_apply, symbol_cons]

theorem next_of_ne (h : ¬ ts.head? = some (.symbol .comma)) :
    next p ts = .error (.soft (Token.nextKind ts)) := by
  simp [next, h]

theorem repeated_of_soft (h : p ts = .error (.soft k)) : repeated p ts = .ok ([], ts) := by
  rw [repeated, h]

theorem repeated_of_final (h : p ts = .error (.final k)) : repeated p ts = .error (.final k) := by
  rw [repeated, h]

theorem repeated_of_ok (h : p ts = .ok (a, rest)) (hrest : rest.length < ts.length) :
    repeated p ts = do
      let (more, after) ← repeated p rest
      return (a :: more, after) := by
  rw [repeated, h]
  exact if_pos hrest

theorem repeated_cons {more : List α} {after : List Token} (h : p ts = .ok (a, rest))
    (hrest : rest.length < ts.length) (hmore : repeated p rest = .ok (more, after)) :
    repeated p ts = .ok (a :: more, after) := by
  rw [repeated_of_ok h hrest, hmore]
  rfl

theorem repeated_later {e : Rule.Failure} (h : p ts = .ok (a, rest))
    (hrest : rest.length < ts.length) (hmore : repeated p rest = .error e) :
    repeated p ts = .error e := by
  rw [repeated_of_ok h hrest, hmore]
  rfl

section Enclosed

variable {opening closing : Symbol}

theorem enclosed_of_ne (h : ts.head? ≠ some (.symbol opening)) :
    enclosed opening p closing ts = .error (.soft (Token.nextKind ts)) := by
  simp [enclosed, h]

theorem enclosed_of_ok (h : p ts = .ok (a, .symbol closing :: rest)) :
    enclosed opening p closing (.symbol opening :: ts) = .ok (a, rest) := by
  simp [enclosed, commit, h]

theorem enclosed_of_soft (h : p ts = .error (.soft k)) :
    enclosed opening p closing (.symbol opening :: ts) = .error (.final k) := by
  simp [enclosed, commit, h]

theorem enclosed_of_final (h : p ts = .error (.final k)) :
    enclosed opening p closing (.symbol opening :: ts) = .error (.final k) := by
  simp [enclosed, commit, h]

/-- Something else than the closing symbol follows. -/
theorem enclosed_of_open (h : p ts = .ok (a, rest)) (hrest : rest.head? ≠ some (.symbol closing)) :
    enclosed opening p closing (.symbol opening :: ts) =
      .error (.final (Token.nextKind rest)) := by
  simp [enclosed, commit, h, hrest]

end Enclosed

/-- The rule applies, and no other one is tried. -/
def Applies (p : Rule α) (ts : List Token) : Prop := ∀ k, p ts ≠ .error (.soft k)

namespace Applies

theorem orElse (h : Applies p ts) : (p <|> q) ts = p ts := by
  rw [orElse_apply]
  split
  next k hk => exact absurd hk (h k)
  next => rfl

theorem map {g : α → β} (h : Applies p ts) : Applies (g <$> p) ts := by
  intro k
  rw [map_apply]
  cases hp : p ts with
  | ok r => simp
  | error e =>
    rintro ⟨⟩
    exact h k hp

theorem commit : Applies (commit p) ts := by
  intro k
  unfold Rule.commit
  split
  next => simp
  next hp => exact hp k

theorem enclosed {opening closing : Symbol} :
    Applies (enclosed opening p closing) (.symbol opening :: ts) := by
  intro k
  simp only [Rule.enclosed, bind_apply, symbol_cons]
  exact commit k

end Applies

/-! ## How many tokens a rule takes -/

/-- The rule comes to an end. Either it has a result, and has taken the first tokens and at least
`n` of them, or it blames a kind of token. -/
def Uses (n : Nat) (p : Rule α) : Prop :=
  ∀ ts, (∃ a used rest, p ts = .ok (a, rest) ∧ used ++ rest = ts ∧ n ≤ used.length) ∨
    ∃ k, p ts = .error (.soft k) ∨ p ts = .error (.final k)

namespace Uses

variable {n m : Nat}

theorem mono (h : Uses n p) (hm : m ≤ n) : Uses m p := by
  intro ts
  rcases h ts with ⟨a, used, rest, hp, hts, hn⟩ | hk
  · exact .inl ⟨a, used, rest, hp, hts, Nat.le_trans hm hn⟩
  · exact .inr hk

theorem of_ok (h : Uses n p) (hp : p ts = .ok (a, rest)) :
    ∃ used, used ++ rest = ts ∧ n ≤ used.length := by
  rcases h ts with ⟨_, used, _, hp', hts, hn⟩ | ⟨k, hk | hk⟩
  · cases hp.symm.trans hp'
    exact ⟨used, hts, hn⟩
  · cases hp.symm.trans hk
  · cases hp.symm.trans hk

theorem shorter (h : Uses 1 p) (hp : p ts = .ok (a, rest)) : rest.length < ts.length := by
  obtain ⟨used, rfl, hn⟩ := h.of_ok hp
  rw [List.length_append]
  omega

protected theorem pure : Uses 0 (pure a : Rule α) :=
  fun ts => .inl ⟨a, [], ts, rfl, rfl, Nat.zero_le _⟩

theorem fail : Uses n (fail k : Rule α) := fun _ => .inr ⟨k, .inr rfl⟩

theorem accept {g : Token → Option α} : Uses 1 (accept g) := by
  intro ts
  by_cases hn : ∀ t ∈ ts.head?, g t = none
  · exact .inr ⟨_, .inl (accept_of_none hn)⟩
  · simp only [not_forall] at hn
    obtain ⟨t, ht, hn⟩ := hn
    obtain ⟨rest, rfl⟩ := List.head?_eq_some_iff.mp ht
    obtain ⟨a, ha⟩ := Option.ne_none_iff_exists'.mp hn
    exact .inl ⟨a, [t], rest, accept_of_some ha, rfl, Nat.le_refl 1⟩

theorem symbol {s : Symbol} : Uses 1 (symbol s) := accept

theorem bind (hp : Uses n p) (hf : ∀ a, Uses m (f a)) : Uses (n + m) (p >>= f) := by
  intro ts
  rcases hp ts with ⟨a, used, mid, h, rfl, hn⟩ | ⟨k, h | h⟩
  · rcases hf a mid with ⟨b, used', rest, h', rfl, hm⟩ | ⟨k, h' | h'⟩
    · refine .inl ⟨b, used ++ used', rest, by simpa [h] using h', by simp, ?_⟩
      rw [List.length_append]
      omega
    · exact .inr ⟨k, .inl (by simpa [h] using h')⟩
    · exact .inr ⟨k, .inr (by simpa [h] using h')⟩
  · exact .inr ⟨k, .inl (by simp [h])⟩
  · exact .inr ⟨k, .inr (by simp [h])⟩

theorem map {g : α → β} (hp : Uses n p) : Uses n (g <$> p) :=
  hp.bind fun _ => .pure

theorem orElse (hp : Uses n p) (hq : Uses n q) : Uses n (p <|> q) := by
  intro ts
  rcases hp ts with ⟨a, used, rest, h, hts, hn⟩ | ⟨k, h | h⟩
  · exact .inl ⟨a, used, rest, by simp [h], hts, hn⟩
  · simpa [h] using hq ts
  · exact .inr ⟨k, .inr (by simp [h])⟩

theorem commit (hp : Uses n p) : Uses n (commit p) := by
  intro ts
  rcases hp ts with ⟨a, used, rest, h, hts, hn⟩ | ⟨k, h | h⟩
  · exact .inl ⟨a, used, rest, by simp [Rule.commit, h], hts, hn⟩
  · exact .inr ⟨k, .inr (by simp [Rule.commit, h])⟩
  · exact .inr ⟨k, .inr (by simp [Rule.commit, h])⟩

theorem optional (hp : Uses n p) : Uses 0 (optional p) :=
  (hp.mono (Nat.zero_le n)).map.orElse .pure

/-- A rule that takes a token whenever it applies can be repeated. -/
theorem repeated (hp : Uses 1 p) : Uses 0 (repeated p) := by
  intro ts
  fun_induction Rule.repeated p ts with
  | case1 ts a mid h hmid ih =>
    obtain ⟨used, hts, -⟩ := hp.of_ok h
    rcases ih with ⟨more, used', rest, h', rfl, -⟩ | ⟨k, h' | h'⟩
    · exact .inl ⟨a :: more, used ++ used', rest, by rw [h']; rfl, by simpa using hts,
        Nat.zero_le _⟩
    · exact .inr ⟨k, .inl (by rw [h']; rfl)⟩
    · exact .inr ⟨k, .inr (by rw [h']; rfl)⟩
  | case2 ts a mid h hmid => exact absurd (hp.shorter h) hmid
  | case3 ts k h => exact .inl ⟨[], [], ts, rfl, rfl, Nat.zero_le _⟩
  | case4 ts e hsoft h =>
    rcases hp ts with ⟨_, _, _, h', -⟩ | ⟨k, h' | h'⟩
    · cases h.symm.trans h'
    · cases h.symm.trans h'
      exact absurd rfl (hsoft k)
    · cases h.symm.trans h'
      exact .inr ⟨k, .inr rfl⟩

theorem next (hp : Uses n p) : Uses 1 (next p) :=
  (symbol.bind fun _ => hp).mono (by omega)

theorem separated (hp : Uses 1 p) : Uses 1 (separated p) :=
  hp.bind fun _ => hp.next.repeated.bind fun _ => .pure

theorem enclosed {opening closing : Symbol} (hp : Uses n p) :
    Uses 1 (enclosed opening p closing) :=
  (symbol.bind fun _ => (hp.bind fun _ => symbol.bind fun _ => .pure).commit).mono (by omega)

end Uses
end Rule
end PathQuery
