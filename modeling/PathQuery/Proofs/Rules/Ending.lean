import PathQuery.Proofs.Rules.Progress

/-! The end of a path.
A rule for which the end is no token does the same whether the tokens stop or an end comes next, and
it never looks at what comes after an end. Every combinator hands this on, so that it holds of all
rules but the one that takes the end. -/
namespace PathQuery

namespace Rule

open PathQuery.Expr Step

variable {α β : Type} {m n : Nat} {p q : Rule α} {f : α → Rule β} {ts rest : List Token} {a : α}

/-- On fewer than `m` tokens with no end among them, the rule does the same if an end and any tokens
are put after them, and leaves these as they are. -/
def Blind (m : Nat) (p : Rule α) : Prop :=
  ∀ ts rest, ts.length < m → .finish ∉ ts →
    p (ts ++ .finish :: rest) = (p ts).map fun r => (r.1, r.2 ++ .finish :: rest)

/-- What a rule leaves is shorter by the tokens it takes, and has no end if there was none. -/
theorem Uses.left (h : Uses n p) (hp : p ts = .ok (a, rest)) (hts : ts.length < m)
    (hn : .finish ∉ ts) : rest.length < m - n ∧ .finish ∉ rest := by
  obtain ⟨used, rfl, hused⟩ := h.of_ok hp
  rw [List.length_append] at hts
  exact ⟨by omega, fun hr => hn (List.mem_append_right used hr)⟩

namespace Blind

theorem mono (h : Blind m p) (hn : n ≤ m) : Blind n p :=
  fun ts rest hts => h ts rest (by omega)

protected theorem pure : Blind m (pure a : Rule α) := fun _ _ _ _ => rfl

theorem fail {k : Token.Kind} : Blind m (fail k : Rule α) := fun _ _ _ _ => rfl

theorem accept {g : Token → Option α} (hg : g .finish = none) : Blind m (accept g) := by
  intro ts rest _ _
  cases ts with
  | nil => simp [Rule.accept, hg, Token.nextKind, Token.kind, Except.map]
  | cons t ts => cases ht : g t <;> simp [Rule.accept, ht, Token.nextKind, Except.map]

theorem symbol {s : Symbol} : Blind m (symbol s) := accept rfl

theorem bind (hp : Blind m p) (hu : Uses n p) (hf : ∀ a, Blind (m - n) (f a)) :
    Blind m (p >>= f) := by
  intro ts rest hts hn
  rw [bind_apply, bind_apply, hp ts rest hts hn]
  cases h : p ts with
  | error e => rfl
  | ok r =>
    obtain ⟨hmid, hn⟩ := hu.left h hts hn
    exact hf r.1 r.2 rest hmid hn

theorem map {g : α → β} (hp : Blind m p) : Blind m (g <$> p) := by
  intro ts rest hts hn
  rw [map_apply, map_apply, hp ts rest hts hn]
  cases p ts <;> rfl

theorem orElse (hp : Blind m p) (hq : Blind m q) : Blind m (p <|> q) := by
  intro ts rest hts hn
  rw [orElse_apply, orElse_apply, hp ts rest hts hn]
  cases p ts with
  | ok r => rfl
  | error e =>
    cases e with
    | soft k => exact hq ts rest hts hn
    | _ => rfl

theorem commit (hp : Blind m p) : Blind m (commit p) := by
  intro ts rest hts hn
  rw [Rule.commit, Rule.commit, hp ts rest hts hn]
  cases p ts with
  | ok r => rfl
  | error e => cases e <;> rfl

theorem optional (hp : Blind m p) : Blind m (optional p) := hp.map.orElse .pure

/-- As the rule takes a token whenever it applies, the repetitions on both sides go on alike. -/
theorem repeated (hp : Blind m p) (hu : Uses 1 p) : Blind m (repeated p) := by
  intro ts rest hts hn
  have hcut := hp ts rest hts hn
  fun_induction Rule.repeated p ts with
  | case1 ts a mid h hmid ih =>
    obtain ⟨hlength, hmn⟩ := hu.left h hts hn
    rw [h] at hcut
    rw [repeated_of_ok hcut (by simp only [List.length_append]; omega),
      ih (by omega) hmn (hp mid rest (by omega) hmn)]
    cases Rule.repeated p mid <;> rfl
  | case2 ts a mid h hmid => exact absurd (hu.shorter h) hmid
  | case3 ts k h =>
    rw [h] at hcut
    exact repeated_of_soft hcut
  | case4 ts e hsoft h =>
    rw [Rule.repeated, hcut, h]
    cases e with
    | soft k => exact absurd rfl (hsoft k)
    | _ => rfl

theorem next (hp : Blind m p) : Blind (m + 1) (next p) := symbol.bind .symbol fun _ => hp

theorem separated (hp : Blind m p) (hu : Uses 1 p) : Blind m (separated p) := by
  have hnext : Blind (m - 1) (Rule.next p) := hp.next.mono (by omega)
  exact hp.bind hu fun _ => (hnext.repeated hu.next).bind hu.next.repeated fun _ => .pure

theorem enclosed {opening closing : Symbol} (hp : Blind m p) (hu : Uses n p) :
    Blind (m + 1) (enclosed opening p closing) :=
  symbol.bind .symbol fun _ => (hp.bind hu fun _ => symbol.bind .symbol fun _ => .pure).commit

end Blind

/-! ## Expressions -/

section Expressions

variable {inner : Rule Expr} {call : Level → Rule Expr}

theorem blind_operation (l : Nat) (h : Blind m inner) (hu : Uses 1 inner) :
    Blind (m + 1) (operation l inner) :=
  (Blind.accept rfl).bind .accept fun _ => h.commit.bind hu.commit fun _ => .pure

theorem blind_chain (l : Nat) (h : Blind m inner) (hu : Uses 1 inner) :
    Blind m (chain l inner) := by
  have hmore : Blind (m - 1) (operation l inner) := (blind_operation l h hu).mono (by omega)
  have humore := uses_operation l hu
  exact h.bind hu fun _ => (hmore.repeated humore).bind humore.repeated fun _ => .pure

theorem blind_comparison (h : Blind m inner) (hu : Uses 1 inner) :
    Blind m (comparison inner) := by
  have hmore : Blind (m - 1) (operation BinaryOp.comparisonLevel inner) :=
    (blind_operation _ h hu).mono (by omega)
  refine h.bind hu fun lhs => hmore.optional.bind (uses_operation _ hu).optional fun rhs => ?_
  cases rhs with
  | some rhs => exact .pure
  | none => exact .pure

theorem blind_arguments (h : Blind m inner) (hu : Uses 1 inner) : Blind (m + 1) (arguments inner) :=
  ((h.separated hu).orElse .pure).enclosed (n := 0)
    ((hu.separated.mono (by decide)).orElse .pure)

theorem blind_access (h : Blind m inner) (hu : Uses 1 inner) : Blind (m + 1) (access inner) := by
  have hargs : Blind m (optional (arguments inner)) :=
    (blind_arguments h hu).optional.mono (by omega)
  refine (Blind.accept rfl).bind .accept fun name =>
    hargs.bind (uses_arguments hu).optional fun args => ?_
  cases args with
  | none => exact .pure
  | some args =>
    cases hm : Method.ofName? name with
    | none => simpa [hm] using .fail
    | some m => simpa [hm] using .pure

theorem blind_suffix (h : Blind m inner) (hu : Uses 1 inner) : Blind (m + 1) (suffix inner) := by
  have hmember : Blind (m + 1) (do symbol .dot; commit (access inner)) :=
    Blind.symbol.bind .symbol fun _ => ((blind_access h hu).mono (by omega)).commit
  exact hmember.orElse (h.enclosed hu).map

theorem blind_named (h : Blind m inner) (hu : Uses 1 inner) : Blind (m + 1) (named inner) := by
  refine (Blind.accept rfl).bind .accept fun name => ?_
  cases Literal.ofName? name with
  | some l => exact .pure
  | none =>
    cases Coercion.ofName? name with
    | some c => exact ((h.enclosed hu).mono (by omega)).commit.map
    | none => exact .fail

/-- The levels that start with a token of their own call others on fewer tokens only. -/
theorem blind_operand (h : Blind m (call .or)) (hu : Uses 1 (call .or)) :
    Blind (m + 1) (ofLevel call .operand) := by
  have word : ∀ {s : Symbol} {e : Expr}, Blind (m + 1) (do symbol s; return e) :=
    Blind.symbol.bind .symbol fun _ => .pure
  exact word.orElse (word.orElse ((Blind.accept rfl).map.orElse ((Blind.accept rfl).map.orElse
    ((blind_named h hu).orElse (h.enclosed hu)))))

theorem blind_access_level (htarget : Blind (m + 1) (call .operand))
    (hutarget : Uses 1 (call .operand)) (h : Blind m (call .or)) (hu : Uses 1 (call .or)) :
    Blind (m + 1) (ofLevel call .access) := by
  have hmore : Blind m (suffix (call .or)) := (blind_suffix h hu).mono (by omega)
  have humore := uses_suffix hu
  exact htarget.bind hutarget fun _ => (hmore.repeated humore).bind humore.repeated fun _ => .pure

theorem blind_unary (haccess : Blind (m + 1) (call .access)) (hunary : Blind m (call .unary))
    (h : Blind m (call .or)) (hu : Uses 1 (call .or)) : Blind (m + 1) (ofLevel call .unary) := by
  have word : ∀ {s : Symbol} {f : Expr → Expr},
      Blind (m + 1) (do symbol s; f <$> commit (call .unary)) :=
    Blind.symbol.bind .symbol fun _ => hunary.commit.map
  exact word.orElse (word.orElse ((h.enclosed hu).map.orElse haccess))

end Expressions

/-- By induction on the number of tokens. A level calls another one after it has taken a token, or
else the level that binds tighter. -/
theorem blind_expression (m : Nat) (level : Level) : Blind m (expression level) := by
  induction m generalizing level with
  | zero => exact fun ts rest hts => absurd hts (Nat.not_lt_zero _)
  | succ m ih =>
    have or := uses_expression .or
    have operand : Blind (m + 1) (expression .operand) := by
      rw [expression_eq]
      exact blind_operand (ih .or) or
    have access : Blind (m + 1) (expression .access) := by
      rw [expression_eq]
      exact blind_access_level operand (uses_expression .operand) (ih .or) or
    have unary : Blind (m + 1) (expression .unary) := by
      rw [expression_eq]
      exact blind_unary access (ih .unary) (ih .or) or
    have product : Blind (m + 1) (expression .product) := by
      rw [expression_eq]
      exact blind_chain 4 unary (uses_expression .unary)
    have sum : Blind (m + 1) (expression .sum) := by
      rw [expression_eq]
      exact blind_chain 3 product (uses_expression .product)
    have comparison : Blind (m + 1) (expression .comparison) := by
      rw [expression_eq]
      exact blind_comparison sum (uses_expression .sum)
    have and : Blind (m + 1) (expression .and) := by
      rw [expression_eq]
      exact blind_chain 1 comparison (uses_expression .comparison)
    cases level with
    | or =>
      rw [expression_eq]
      exact blind_chain 0 and (uses_expression .and)
    | and => exact and
    | comparison => exact comparison
    | sum => exact sum
    | product => exact product
    | unary => exact unary
    | access => exact access
    | operand => exact operand

/-! ## Paths -/

theorem blind_member : Blind m member :=
  (Blind.accept rfl).map.orElse ((Blind.accept rfl).map.orElse
    (Blind.symbol.bind .symbol fun _ => .pure))

theorem blind_slice : Blind m slice :=
  (Blind.accept rfl).optional.bind Uses.accept.optional fun _ => Blind.symbol.bind .symbol fun _ =>
    (Blind.accept rfl).optional.bind Uses.accept.optional fun _ => .pure

theorem blind_bracketBody : Blind m bracketBody := by
  have enclosed : ∀ {s : Symbol} {f : Expr → Step},
      Blind m (f <$> enclosed s (expression .or) .parenClose) :=
    (((blind_expression m .or).enclosed (uses_expression .or)).mono (by omega)).map
  have star : Blind m (do symbol .star; return Step.wildcard) :=
    Blind.symbol.bind .symbol fun _ => .pure
  have selector : Blind m selector := (Blind.accept rfl).map.orElse (Blind.accept rfl).map
  exact enclosed.orElse (enclosed.orElse (enclosed.orElse (star.orElse
    (blind_slice.orElse (selector.separated uses_selector).map))))

theorem blind_bracket : Blind m bracket :=
  (blind_bracketBody.enclosed uses_bracketBody).mono (Nat.le_succ m)

theorem blind_brace : Blind m brace :=
  ((((Blind.accept rfl).separated .accept).enclosed Uses.accept.separated).mono (Nat.le_succ m)).map

theorem blind_recursion : Blind m recursion := by
  have target : Uses 1 (member <|> bracket <|> brace) :=
    uses_member.orElse (uses_bracket.orElse uses_brace)
  refine Blind.symbol.bind .symbol fun _ =>
    (blind_member.orElse (blind_bracket.orElse blind_brace)).optional.bind target.optional
      fun step => ?_
  cases step with
  | some step => exact .pure
  | none => exact .pure

theorem blind_coercion : Blind m coercion := by
  refine (Blind.accept rfl).bind .accept fun name => ?_
  cases hc : Coercion.ofName? name with
  | none => simpa [hc] using .fail
  | some c => simpa [hc] using .pure

theorem blind_segment : Blind m segment := by
  have dot : Blind m (do symbol .dot; (fun s => [s]) <$> commit member) :=
    Blind.symbol.bind .symbol fun _ => blind_member.commit.map
  exact dot.orElse (blind_recursion.orElse (blind_bracket.map.orElse
    (blind_brace.map.orElse blind_coercion.map)))

/-- Only the last rule of a path takes an end. Tokens without one are refused for want of it, or as
they are with an end and any tokens after them. -/
theorem path_append (hn : .finish ∉ ts) :
    (∃ steps, path ts = .error (.soft .finish) ∧
      ∀ rest, path (ts ++ .finish :: rest) = .ok (steps, rest)) ∨
    ∃ e, path ts = .error e ∧ ∀ rest, path (ts ++ .finish :: rest) = .error e := by
  let segments : Rule (List (List Step)) := do symbol .root; repeated segment
  have hpath : ∀ ts, path ts =
      (segments >>= fun s => do finish; return .root :: s.flatten) ts := by
    intro ts
    simp only [path, segments, bind_apply]
    cases symbol .root ts <;> rfl
  have huses : Uses 1 segments := Uses.symbol.bind fun _ => uses_segment.repeated
  have hblind : Blind (ts.length + 1) segments :=
    Blind.symbol.bind .symbol fun _ => blind_segment.repeated uses_segment
  have happend rest := hblind ts rest (Nat.lt_succ_self _) hn
  simp only [hpath, bind_apply, happend]
  cases h : segments ts with
  | error e => exact .inr ⟨e, rfl, fun rest => rfl⟩
  | ok r =>
    obtain ⟨s, mid⟩ := r
    obtain ⟨-, hmid⟩ := huses.left h (Nat.lt_succ_self _) hn
    cases mid with
    | nil => exact .inl ⟨.root :: s.flatten, rfl, fun rest => rfl⟩
    | cons t mid =>
      have ht : t ≠ .finish := fun ht => hmid (by simp [ht])
      have hfinish : ∀ rest, finish (t :: rest) = .error (.soft t.kind) :=
        fun rest => finish_of_ne (by simpa using ht)
      exact .inr ⟨.soft t.kind, by simp [hfinish], fun rest => by simp [Except.map, hfinish]⟩

theorem parse_of_path_ok {steps : List Step} (h : path ts = .ok (steps, rest)) :
    Query.parse ts = .ok steps := by
  rcases path_cases ts with ⟨steps', rest', hr, hp⟩ | ⟨k, hk | hk, -⟩
  · cases h.symm.trans hr
    exact hp
  · cases h.symm.trans hk
  · cases h.symm.trans hk

theorem parse_of_path_error {k : Token.Kind}
    (h : path ts = .error (.soft k) ∨ path ts = .error (.final k)) :
    Query.parse ts = .error (.unexpected k) := by
  rcases path_cases ts with ⟨steps, rest, hr, -⟩ | ⟨k', hk, hp⟩
  · simp [hr] at h
  · obtain rfl : k' = k := by
      rcases hk with hk | hk <;> simpa [hk] using h
    exact hp

end Rule

variable {ts : List Token}

/-- What stands after the first end makes no difference. Where no end comes at all, tokens that are
rejected with an end after them are rejected the same without it, and others for want of it. -/
theorem Query.parse_append_finish (h : .finish ∉ ts) :
    Token.nextKind [] = .finish ∧
    (∀ rest, parse (ts ++ .finish :: rest) = parse (ts ++ [.finish])) ∧
    (∀ e, parse (ts ++ [.finish]) = .error e → parse ts = .error e) ∧
    ∀ steps, parse (ts ++ [.finish]) = .ok steps → parse ts = .error (.unexpected .finish) := by
  refine ⟨rfl, ?_⟩
  rcases Rule.path_append h with ⟨steps, hts, hall⟩ | ⟨e, hts, hall⟩
  · have hok rest : parse (ts ++ .finish :: rest) = .ok steps := Rule.parse_of_path_ok (hall rest)
    have hend : parse ts = .error (.unexpected .finish) := Rule.parse_of_path_error (.inl hts)
    refine ⟨fun rest => (hok rest).trans (hok []).symm, fun e he => ?_, fun _ _ => hend⟩
    cases (hok []).symm.trans he
  · obtain ⟨k, hk⟩ : ∃ k, e = .soft k ∨ e = .final k := by
      rcases Rule.path_cases ts with ⟨_, _, hr, -⟩ | ⟨k, hk, -⟩
      · cases hts.symm.trans hr
      · exact ⟨k, by simpa [hts] using hk⟩
    have herror {ts'} (h : Rule.path ts' = .error e) : parse ts' = .error (.unexpected k) :=
      Rule.parse_of_path_error (by simpa [h] using hk)
    have hall rest := herror (hall rest)
    refine ⟨fun rest => (hall rest).trans (hall []).symm, fun e he => ?_, fun steps hok => ?_⟩
    · rw [herror hts, ← hall [], he]
    · cases (hall []).symm.trans hok

/-- A path with more after its end, and one that breaks off in front of a sign. -/
theorem Query.parse_append_finish_sample :
    let path : List Token := [.symbol .root, .symbol .dot, .identifier "a"]
    let broken : List Token := [.symbol .root, .symbol .dot, .symbol .minus]
    (.finish ∉ path ∧ parse (path ++ [.finish]) = .ok [.root, .member "a"] ∧
      parse (path ++ [.finish, .symbol .star]) = .ok [.root, .member "a"] ∧
      parse path = .error (.unexpected .finish)) ∧
    .finish ∉ broken ∧ parse (broken ++ [.finish]) = .error (.unexpected (.symbol .minus)) ∧
      parse broken = .error (.unexpected (.symbol .minus)) := by
  intro path broken
  have hpath : .finish ∉ path := by simp [path]
  have hbroken : .finish ∉ broken := by simp [broken]
  have hok : parse (path ++ [.finish]) = .ok [.root, .member "a"] := by with_unfolding_all rfl
  have herror : parse (broken ++ [.finish]) = .error (.unexpected (.symbol .minus)) := by
    with_unfolding_all rfl
  obtain ⟨-, hrest, -, hend⟩ := parse_append_finish hpath
  obtain ⟨-, -, hsame, -⟩ := parse_append_finish hbroken
  exact ⟨⟨hpath, hok, (hrest [.symbol .star]).trans hok, hend _ hok⟩, hbroken, herror,
    hsame _ herror⟩

end PathQuery
