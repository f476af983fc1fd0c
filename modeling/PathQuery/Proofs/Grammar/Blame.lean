import Mathlib.Data.List.Basic
import PathQuery.Proofs.Grammar.Unambiguity

/-! Which token a failure blames.
A failure cuts the tokens in two: those before the cut can be completed, and whatever follows them
fails if it begins as the tokens after the cut do. The token after the cut is the one to blame, with
one exception for commas. `Phrase.Fault` says all this of one part of the grammar and its reader,
and the lemmas about it carry a fault from a part to the larger part around it. -/
namespace PathQuery.Grammar

variable {x ts before rest : List Token} {k : Token.Kind}

theorem nextKind_congr {ts' : List Token} (h : ts'.head? = ts.head?) :
    Token.nextKind ts' = Token.nextKind ts := by
  cases ts <;> cases ts' <;> simp_all [Token.nextKind]

/-! ## Commas -/

/-- No comma stands at the end. -/
def Settled (ts : List Token) : Prop := ts.getLast? ≠ some (.symbol .comma)

@[simp] theorem settled_nil : Settled [] := by
  simp [Settled]

@[simp] theorem settled_singleton {t : Token} : Settled [t] ↔ t ≠ .symbol .comma := by
  simp [Settled]

/-- What comes before some token does not matter. -/
@[simp] theorem settled_append_cons {t : Token} : Settled (x ++ t :: ts) ↔ Settled (t :: ts) := by
  rw [Settled, List.getLast?_append_cons, Settled]

@[simp] theorem settled_cons_append_cons {t u : Token} :
    Settled (u :: (x ++ t :: ts)) ↔ Settled (t :: ts) :=
  settled_append_cons (x := u :: x)

@[simp] theorem settled_cons_cons {t u : Token} : Settled (t :: u :: ts) ↔ Settled (u :: ts) :=
  settled_append_cons (x := [t])

theorem Settled.append (hx : Settled x) (h : Settled ts) : Settled (x ++ ts) := by
  cases ts with
  | nil => simpa using hx
  | cons t ts => exact settled_append_cons.mpr h

theorem Settled.cons {t : Token} (ht : t ≠ .symbol .comma) (h : Settled ts) : Settled (t :: ts) :=
  Settled.append (x := [t]) (settled_singleton.mpr ht) h

/-- The kind to blame where `rest` cannot follow `before`. A comma for which no name follows is
blamed itself. -/
def blame (before rest : List Token) : Token.Kind :=
  match before.getLast?, rest with
  | some (.symbol .comma), .identifier _ :: _ => .identifier
  | some (.symbol .comma), _ => .symbol .comma
  | _, _ => Token.nextKind rest

theorem blame_settled (h : Settled before) : blame before rest = Token.nextKind rest := by
  unfold blame
  split
  next hc => exact absurd hc h
  next hc _ => exact absurd hc h
  next => rfl

theorem blame_name {name : String} :
    blame (x ++ [.symbol .comma]) (.identifier name :: rest) = .identifier := by
  simp [blame]

theorem blame_comma (h : ∀ name, rest.head? ≠ some (.identifier name)) :
    blame (x ++ [.symbol .comma]) rest = .symbol .comma := by
  unfold blame
  split
  next name _ _ => exact absurd rfl (h name)
  next => rfl
  next hc _ => simp at hc

theorem blame_of_ne_nil (h : before ≠ []) : blame (x ++ before) rest = blame before rest := by
  unfold blame
  rw [List.getLast?_append_of_ne_nil x h]

/-! ## Faults -/

/-- A part of the grammar with its reader. -/
structure Phrase where
  /-- The reader fails on some tokens and blames a kind. -/
  fails : List Token → Token.Kind → Prop
  /-- The tokens that the part derives, with the symbol that closes it, if it has one. -/
  derives : List Token → Prop
  /-- The tokens that stand before a comma which separates keys. -/
  keys : List Token → Prop := fun _ => False

namespace Phrase

variable {P Q : Phrase}

/-- A failure with the cut between `before` and `rest`. -/
structure FaultAt (P : Phrase) (before rest : List Token) (k : Token.Kind) : Prop where
  fails : ∀ rest', rest'.head? = rest.head? → P.fails (before ++ rest') k
  viable : ∃ more, P.derives (before ++ more)
  blames : k = blame before rest ∨
    k = .symbol .comma ∧ ∃ start, before = start ++ [.symbol .comma] ∧ P.keys start

/-- A failure with a cut somewhere. -/
def Fault (P : Phrase) (ts : List Token) (k : Token.Kind) : Prop :=
  ∃ before rest, before ++ rest = ts ∧ P.FaultAt before rest k

/-- After some tokens that have been read, the fault of a part is a fault of the whole. -/
theorem FaultAt.after (h : P.FaultAt before rest k)
    (hblame : before = [] → blame x rest = Token.nextKind rest)
    (hfails : ∀ rest', rest'.head? = rest.head? → P.fails (before ++ rest') k →
      Q.fails (x ++ (before ++ rest')) k)
    (hderives : ∀ ts, P.derives ts → ∃ more, Q.derives (x ++ ts ++ more))
    (hkeys : ∀ ts, P.keys ts → Q.keys (x ++ ts)) : Q.FaultAt (x ++ before) rest k where
  fails rest' hr := by
    rw [List.append_assoc]
    exact hfails rest' hr (h.fails rest' hr)
  viable := by
    obtain ⟨more, hd⟩ := h.viable
    obtain ⟨more', hd⟩ := hderives _ hd
    exact ⟨more ++ more', by simpa using hd⟩
  blames := by
    rcases h.blames with hk | ⟨hk, start, rfl, hs⟩
    · left
      by_cases hb : before = []
      · subst hb
        rw [hk, List.append_nil, hblame rfl, blame_settled settled_nil]
      · rw [hk, blame_of_ne_nil hb]
    · exact .inr ⟨hk, x ++ start, by simp, hkeys start hs⟩

theorem Fault.after (h : P.Fault ts k) (hx : Settled x)
    (hfails : ∀ ts', ts'.head? = ts.head? → P.fails ts' k → Q.fails (x ++ ts') k)
    (hderives : ∀ ts, P.derives ts → ∃ more, Q.derives (x ++ ts ++ more))
    (hkeys : ∀ ts, P.keys ts → Q.keys (x ++ ts)) : Q.Fault (x ++ ts) k := by
  obtain ⟨before, rest, rfl, h⟩ := h
  exact ⟨x ++ before, rest, by simp, h.after (fun _ => blame_settled hx)
    (fun rest' hr => hfails _ (head?_append_congr hr)) hderives hkeys⟩

/-- The fault of a part that comes first. -/
theorem Fault.first (h : P.Fault ts k)
    (hfails : ∀ ts', ts'.head? = ts.head? → P.fails ts' k → Q.fails ts' k)
    (hderives : ∀ ts, P.derives ts → ∃ more, Q.derives (ts ++ more))
    (hkeys : ∀ ts, P.keys ts → Q.keys ts) : Q.Fault ts k :=
  h.after (x := []) settled_nil hfails hderives hkeys

/-- After some tokens that have been read, the next one is at fault. -/
theorem FaultAt.next (hx : Settled x)
    (hfails : ∀ rest', rest'.head? = rest.head? → P.fails (x ++ rest') k)
    (hviable : ∃ more, P.derives (x ++ more)) (hk : Token.nextKind rest = k) :
    P.FaultAt x rest k :=
  ⟨hfails, hviable, .inl (hk.symm.trans (blame_settled hx).symm)⟩

theorem Fault.next (hx : Settled x)
    (hfails : ∀ rest', rest'.head? = rest.head? → P.fails (x ++ rest') k)
    (hviable : ∃ more, P.derives (x ++ more)) (hk : Token.nextKind rest = k) :
    P.Fault (x ++ rest) k :=
  ⟨x, rest, rfl, FaultAt.next hx hfails hviable hk⟩

/-- The first token is at fault. -/
theorem Fault.here (hfails : ∀ ts', ts'.head? = ts.head? → P.fails ts' k)
    (hviable : ∃ more, P.derives more) (hk : Token.nextKind ts = k) : P.Fault ts k :=
  Fault.next (x := []) settled_nil hfails hviable hk

end Phrase
end PathQuery.Grammar
