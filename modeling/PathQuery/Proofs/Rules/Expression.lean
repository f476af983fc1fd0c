import PathQuery.Proofs.Rules.Operators

/-! Expressions by rules and by readers.
The rule of each level does what the reader of that level does, by induction on the tokens and the
level along the calls. So no call of a rule goes astray. -/
namespace PathQuery

/-- What a level reads. -/
def Level.read : Level → (ts : List Token) → Read Expr ts
  | .or, ts => Expr.readAt 0 ts
  | .and, ts => Expr.readAt 1 ts
  | .comparison, ts => Expr.readAt 2 ts
  | .sum, ts => Expr.readAt 3 ts
  | .product, ts => Expr.readAt 4 ts
  | .unary, ts => Expr.readAt 5 ts
  | .access, ts => do
    let ⟨target, rest, h⟩ ← Expr.readPrimary ts
    return (← Expr.readAccessors target rest).within h
  | .operand, ts => Expr.readPrimary ts

/-- Whether an operand starts with a token, or a name that is none. -/
def startsOperand : Token → Bool
  | .identifier _ => true
  | .string _ => true
  | .number _ => true
  | .symbol .current => true
  | .symbol .root => true
  | .symbol .parenOpen => true
  | _ => false

/-- The tokens from which it is clear that a level applies. -/
def Level.starts : Level → Token → Bool
  | .access => startsOperand
  | .operand => startsOperand
  | _ => Expr.startsWith

namespace Rule

open PathQuery.Expr

variable {inner : Rule Expr} {m : Nat}
variable {ts rest : List Token} {e : Expr} {k : Token.Kind}

/-! ## Arguments -/

/-- No argument is found where none can start. -/
theorem exists_soft (h : Carries inner startsWith ts (readAt 0 ts))
    (hs : ∀ t ∈ ts.head?, startsWith t = false) : ∃ k, inner ts = .error (.soft k) := by
  cases hx : readAt 0 ts with
  | ok r =>
    have hr : Reads (readAt 0 ts) r.value r.rest := ⟨r.shorter, hx⟩
    cases (any_head?_eq_false hs).symm.trans (any_startsWith (by decide) hr)
  | error k => exact ⟨k, h.fails_soft hx hs⟩

theorem moreArguments_read {ts rest : List Token} {args : List Expr} (h : CarriesBelow m 0 inner)
    (hm : ts.length ≤ m) (hr : Reads (readMoreArguments ts) args rest) :
    repeated (next inner) ts = .ok (args, .symbol .parenClose :: rest) := by
  rcases readMoreArguments_iff.mp hr with ⟨arg, mid, after, rfl, harg, more, rfl, hmore⟩ |
    ⟨rfl, rfl⟩
  · rw [List.length_cons] at hm
    have hafter := harg.shorter
    have harg := next_comma.trans ((h mid (by omega)).reads harg)
    exact repeated_cons harg (by simp only [List.length_cons]; omega)
      (moreArguments_read h (by omega) hmore)
  · exact repeated_of_soft (next_of_ne (by simp))
termination_by ts.length
decreasing_by subst_vars; simp only [List.length_cons]; omega

/-- One of the arguments fails, or something else than the closing parenthesis follows them. -/
theorem moreArguments_fail {ts : List Token} {k : Token.Kind} (h : CarriesBelow m 0 inner)
    (hm : ts.length ≤ m) (hf : Fails (readMoreArguments ts) k) :
    repeated (next inner) ts = .error (.final k) ∨
      ∃ args rest, repeated (next inner) ts = .ok (args, rest) ∧
        rest.head? ≠ some (.symbol .parenClose) ∧ Token.nextKind rest = k := by
  rcases readMoreArguments_fails.mp hf with ⟨mid, rfl, hs, hf⟩ | ⟨mid, rfl, hs, rfl⟩ |
    ⟨hcomma, hclose, rfl⟩
  · rw [List.length_cons] at hm
    have hmid := h mid (by omega)
    rcases hf with hf | ⟨arg, after, harg, hf⟩
    · exact .inl (repeated_of_final (next_comma.trans (hmid.fails_final hf hs)))
    · have hafter := harg.shorter
      have hlater : after.length < (Token.symbol .comma :: mid).length := by
        simp only [List.length_cons]
        omega
      have harg := next_comma.trans (hmid.reads harg)
      rcases moreArguments_fail h (by omega) hf with hmore | ⟨args, rest, hmore, hrest⟩
      · exact .inl (repeated_later harg hlater hmore)
      · exact .inr ⟨arg :: args, rest, repeated_cons harg hlater hmore, hrest⟩
  · rw [List.length_cons] at hm
    obtain ⟨k, hk⟩ := exists_soft (h mid (by omega)) hs
    exact .inr ⟨[], _, repeated_of_soft (next_comma.trans hk), by simp, rfl⟩
  · exact .inr ⟨[], ts, repeated_of_soft (next_of_ne hcomma), hclose, rfl⟩
termination_by ts.length
decreasing_by subst_vars; simp only [List.length_cons]; omega

theorem arguments_of_ne (h : ¬ ts.head? = some (.symbol .parenOpen)) :
    arguments inner ts = .error (.soft (Token.nextKind ts)) :=
  enclosed_of_ne h

theorem arguments_read {args : List Expr} (h : CarriesBelow m 0 inner) (hm : ts.length < m)
    (hr : Reads (readArguments ts) args rest) :
    arguments inner (.symbol .parenOpen :: ts) = .ok (args, rest) := by
  refine enclosed_of_ok ?_
  rcases readArguments_iff.mp hr with ⟨first, mid, hfirst, more, rfl, hmore⟩ | ⟨rfl, rfl⟩
  · have hmid := hfirst.shorter
    simp [separated, (h ts hm).reads hfirst, moreArguments_read h (by omega) hmore]
  · obtain ⟨k, hk⟩ := exists_soft (h _ hm) (by rintro _ ⟨⟩; rfl)
    simp [separated, hk]

theorem arguments_fail (h : CarriesBelow m 0 inner) (hm : ts.length < m)
    (hf : Fails (readArguments ts) k) :
    arguments inner (.symbol .parenOpen :: ts) = .error (.final k) := by
  rcases readArguments_fails.mp hf with ⟨hs, hf | ⟨first, mid, hfirst, hf⟩⟩ | ⟨hs, hclose, rfl⟩
  · refine enclosed_of_final ?_
    simp [separated, (h ts hm).fails_final hf hs]
  · have hmid := hfirst.shorter
    rcases moreArguments_fail h (by omega) hf with hmore | ⟨more, rest, hmore, hrest, rfl⟩
    · refine enclosed_of_final ?_
      simp [separated, (h ts hm).reads hfirst, hmore]
    · refine enclosed_of_open (a := first :: more) ?_ hrest
      simp [separated, (h ts hm).reads hfirst, hmore]
  · obtain ⟨k, hk⟩ := exists_soft (h ts hm) hs
    exact enclosed_of_open (a := []) (by simp [separated, hk]) hclose

/-! ## Suffixes -/

@[simp] theorem accept_name {name : String} :
    accept Token.name? (.identifier name :: ts) = .ok (name, ts) :=
  accept_of_some rfl

theorem suffix_property (name : String) (h : ¬ ts.head? = some (.symbol .parenOpen)) :
    suffix inner (.symbol .dot :: .identifier name :: ts) = .ok (.property name, ts) := by
  simp [suffix, access, commit, optional, arguments_of_ne h]

theorem suffix_call (name : String) {args : List Expr}
    (h : arguments inner (.symbol .parenOpen :: ts) = .ok (args, rest)) :
    suffix inner (.symbol .dot :: .identifier name :: .symbol .parenOpen :: ts) =
      match Method.ofName? name with
      | some m => .ok (.call m args, rest)
      | none => .error (.final .identifier) := by
  cases hm : Method.ofName? name <;> simp [suffix, access, commit, optional, h, hm]

theorem suffix_call_fails (name : String)
    (h : arguments inner (.symbol .parenOpen :: ts) = .error (.final k)) :
    suffix inner (.symbol .dot :: .identifier name :: .symbol .parenOpen :: ts) =
      .error (.final k) := by
  simp [suffix, access, commit, optional, h]

theorem suffix_unnamed (h : ∀ name, ts.head? ≠ some (.identifier name)) :
    suffix inner (.symbol .dot :: ts) = .error (.final (Token.nextKind ts)) := by
  have hname : ∀ t ∈ ts.head?, Token.name? t = none := by
    intro t ht
    cases t with
    | identifier name => exact absurd ht (h name)
    | _ => rfl
  simp [suffix, access, commit, accept_of_none hname]

theorem suffix_element :
    suffix inner (.symbol .bracketOpen :: ts) =
      (Suffix.element <$> enclosed .bracketOpen inner .bracketClose)
        (.symbol .bracketOpen :: ts) := by
  simp [suffix]

theorem suffix_of_ne (hd : ¬ ts.head? = some (.symbol .dot))
    (hb : ¬ ts.head? = some (.symbol .bracketOpen)) :
    suffix inner ts = .error (.soft (Token.nextKind ts)) := by
  simp [suffix, hd, enclosed_of_ne hb]

theorem suffixes_read {ts rest : List Token} {target e : Expr} (h : CarriesBelow m 0 inner)
    (hm : ts.length ≤ m) (hr : Reads (readAccessors target ts) e rest) :
    ∃ more, repeated (suffix inner) ts = .ok (more, rest) ∧
      more.foldl Suffix.apply target = e := by
  rcases readAccessors_iff.mp hr with ⟨name, mid, rfl, hopen, hr⟩ |
    ⟨method, args, mid, after, rfl, hargs, hr⟩ | ⟨index, mid, after, rfl, hindex, hr⟩ |
    ⟨hdot, hopen, rfl, rfl⟩
  · rw [List.length_cons, List.length_cons] at hm
    have hopen : ¬ mid.head? = some (.symbol .parenOpen) :=
      fun ht => (List.head?_eq_some_iff.mp ht).elim hopen
    obtain ⟨more, hmore, he⟩ := suffixes_read h (by omega) hr
    exact ⟨.property name :: more, repeated_cons (suffix_property name hopen)
      (by simp only [List.length_cons]; omega) hmore, he⟩
  · simp only [List.length_cons] at hm
    have hafter := hargs.shorter
    have hcall := suffix_call method.word (arguments_read h (by omega) hargs)
    rw [Method.ofName?_eq_some.mpr rfl] at hcall
    obtain ⟨more, hmore, he⟩ := suffixes_read h (by omega) hr
    exact ⟨.call method args :: more,
      repeated_cons hcall (by simp only [List.length_cons]; omega) hmore, he⟩
  · rw [List.length_cons] at hm
    have hafter : after.length < mid.length := Nat.lt_of_succ_lt hindex.shorter
    have helement : suffix inner (.symbol .bracketOpen :: mid) = .ok (.element index, after) := by
      rw [suffix_element, map_apply, (h mid (by omega)).enclosed_reads hindex]
    obtain ⟨more, hmore, he⟩ := suffixes_read h (by omega) hr
    exact ⟨.element index :: more,
      repeated_cons helement (by simp only [List.length_cons]; omega) hmore, he⟩
  · refine ⟨[], repeated_of_soft (suffix_of_ne (fun ht => ?_) fun ht => ?_), rfl⟩
    · exact (List.head?_eq_some_iff.mp ht).elim hdot
    · exact (List.head?_eq_some_iff.mp ht).elim hopen
termination_by ts.length
decreasing_by all_goals subst_vars; simp only [List.length_cons]; omega

theorem suffixes_fail {ts : List Token} {target : Expr} {k : Token.Kind}
    (h : CarriesBelow m 0 inner) (hm : ts.length ≤ m) (hf : Fails (readAccessors target ts) k) :
    repeated (suffix inner) ts = .error (.final k) := by
  rcases readAccessors_fails.mp hf with ⟨mid, rfl, hname, rfl⟩ | ⟨name, mid, rfl, hopen, hmore⟩ |
    ⟨name, mid, rfl, hcall⟩ | ⟨mid, rfl, helement⟩
  · exact repeated_of_final (suffix_unnamed hname)
  · rw [List.length_cons, List.length_cons] at hm
    exact repeated_later (suffix_property name hopen) (by simp only [List.length_cons]; omega)
      (suffixes_fail h (by omega) hmore)
  · simp only [List.length_cons] at hm
    rcases hcall with hargs | ⟨args, after, hargs, hmore⟩
    · exact repeated_of_final (suffix_call_fails name (arguments_fail h (by omega) hargs))
    · have hafter := hargs.shorter
      have hcall := suffix_call name (arguments_read h (by omega) hargs)
      rcases hmore with ⟨hn, rfl⟩ | ⟨method, hn, hmore⟩
      · rw [hn] at hcall
        exact repeated_of_final hcall
      · rw [hn] at hcall
        exact repeated_later hcall (by simp only [List.length_cons]; omega)
          (suffixes_fail h (by omega) hmore)
  · rw [List.length_cons] at hm
    have hmid := h mid (by omega)
    rcases helement with hindex | ⟨index, after, hindex, hmore⟩
    · exact repeated_of_final (by rw [suffix_element, map_apply, hmid.enclosed_fails hindex])
    · have hafter : after.length < mid.length := Nat.lt_of_succ_lt hindex.shorter
      have helement : suffix inner (.symbol .bracketOpen :: mid) = .ok (.element index, after) := by
        rw [suffix_element, map_apply, hmid.enclosed_reads hindex]
      exact repeated_later helement (by simp only [List.length_cons]; omega)
        (suffixes_fail h (by omega) hmore)
termination_by ts.length
decreasing_by all_goals subst_vars; simp only [List.length_cons]; omega

/-! ## Operands -/

theorem named_literal {l : Literal} {name : String} (hl : Literal.ofName? name = some l) :
    named inner (.identifier name :: ts) = .ok (.literal l, ts) := by
  simp [named, hl]

theorem named_coercion {c : Coercion} :
    named inner (.identifier c.word :: ts) =
      (Expr.coerce c <$> commit (enclosed .parenOpen inner .parenClose)) ts := by
  simp [named, Coercion.ofName?_eq_some.mpr rfl]

theorem named_unknown {name : String} (hl : Literal.ofName? name = none)
    (hc : Coercion.ofName? name = none) :
    named inner (.identifier name :: ts) = .error (.final .identifier) := by
  simp [named, hl, hc]

section Levels

variable {call : Level → Rule Expr}

theorem applies_named {name : String} : Applies (named inner) (.identifier name :: ts) := by
  cases hl : Literal.ofName? name with
  | some l => simp [Applies, named_literal hl]
  | none =>
    cases hc : Coercion.ofName? name with
    | some c =>
      rw [Coercion.ofName?_eq_some.mp hc, Applies, named_coercion]
      exact Applies.commit.map
    | none => simp [Applies, named_unknown hl hc]

theorem operand_of_name {name : String} :
    ofLevel call .operand (.identifier name :: ts) =
      named (call .or) (.identifier name :: ts) := by
  have hnamed : ofLevel call .operand (.identifier name :: ts) =
      (named (call .or) <|> enclosed .parenOpen (call .or) .parenClose)
        (.identifier name :: ts) := by
    simp [ofLevel, accept, Token.number?, Token.key?]
  exact hnamed.trans applies_named.orElse

theorem operand_of_open :
    ofLevel call .operand (.symbol .parenOpen :: ts) =
      enclosed .parenOpen (call .or) .parenClose (.symbol .parenOpen :: ts) := by
  simp [ofLevel, accept, named, Token.number?, Token.key?, Token.name?]

theorem operand_of_none (h : ∀ t ∈ ts.head?, startsOperand t = false) :
    ofLevel call .operand ts = .error (.soft (Token.nextKind ts)) := by
  have hsymbol : ∀ s, startsOperand (.symbol s) = true → ¬ ts.head? = some (.symbol s) := by
    intro s hs ht
    cases (h _ ht).symm.trans hs
  have hnone : ∀ t ∈ ts.head?, t.name? = none ∧ t.number? = none ∧ t.key? = none := by
    intro t ht
    have := h t ht
    cases t with
    | identifier => cases this
    | number => cases this
    | string => cases this
    | _ => exact ⟨rfl, rfl, rfl⟩
  have hname := accept_of_none fun t ht => (hnone t ht).1
  have hnumber := accept_of_none fun t ht => (hnone t ht).2.1
  have hkey := accept_of_none fun t ht => (hnone t ht).2.2
  simp [ofLevel, named, hname, hnumber, hkey, hsymbol .current rfl, hsymbol .root rfl,
    enclosed_of_ne (hsymbol .parenOpen rfl)]

theorem carries_operand (h : CarriesBelow ts.length 0 (call .or)) :
    Carries (ofLevel call .operand) startsOperand ts (readPrimary ts) where
  reads hr := by
    rcases readPrimary_iff.mp hr with ⟨rfl, rfl⟩ | ⟨rfl, rfl⟩ | ⟨l, rfl, rfl⟩ |
      ⟨c, arg, mid, rfl, rfl, harg⟩ | ⟨mid, rfl, he⟩
    · simp [ofLevel]
    · simp [ofLevel]
    · cases l with
      | string s => simp [ofLevel, Literal.token, accept, Token.number?, Token.key?]
      | number d => simp [ofLevel, Literal.token, accept, Token.number?]
      | bool b => cases b <;> exact operand_of_name.trans (named_literal rfl)
      | null => exact operand_of_name.trans (named_literal rfl)
    · have hmid := h mid (by simp only [List.length_cons]; omega)
      rw [operand_of_name, named_coercion]
      simp [commit, hmid.enclosed_reads harg]
    · rw [operand_of_open, (h mid (by simp)).enclosed_reads he]
  fails hf := by
    rcases readPrimary_fails.mp hf with ⟨c, mid, rfl, hopen, rfl⟩ | ⟨c, mid, rfl, harg⟩ |
      ⟨mid, rfl, he⟩ | ⟨hn, rfl⟩
    · rw [operand_of_name, named_coercion]
      simp [commit, enclosed_of_ne hopen, startsOperand]
    · have hmid := h mid (by simp only [List.length_cons]; omega)
      rw [operand_of_name, named_coercion]
      simp [commit, hmid.enclosed_fails harg, startsOperand]
    · rw [operand_of_open, (h mid (by simp)).enclosed_fails he]
      rfl
    · by_cases hname : ∃ name mid, ts = .identifier name :: mid
      · obtain ⟨name, mid, rfl⟩ := hname
        obtain ⟨hl, hc⟩ : Literal.ofName? name = none ∧ Coercion.ofName? name = none := by
          simpa [startsPrimary] using hn _ rfl
        exact operand_of_name.trans (named_unknown hl hc)
      · have hs : ∀ t ∈ ts.head?, startsOperand t = false := by
          intro t ht
          obtain ⟨mid, rfl⟩ := List.head?_eq_some_iff.mp ht
          have := hn t rfl
          cases t with
          | identifier name => exact absurd ⟨name, mid, rfl⟩ hname
          | symbol s => cases s <;> exact this
          | _ => exact this
        rw [operand_of_none hs, any_head?_eq_false hs]
        rfl

theorem read_access_iff : Reads (Level.read .access ts) e rest ↔
    ∃ target mid, Reads (readPrimary ts) target mid ∧ Reads (readAccessors target mid) e rest := by
  simp [Level.read]

theorem read_access_fails : Fails (Level.read .access ts) k ↔
    Fails (readPrimary ts) k ∨ ∃ target mid, Reads (readPrimary ts) target mid ∧
      Fails (readAccessors target mid) k := by
  simp [Level.read]

theorem any_startsOperand (hr : Reads (readPrimary ts) e rest) :
    ts.head?.any startsOperand = true := by
  rcases readPrimary_iff.mp hr with ⟨rfl, _⟩ | ⟨rfl, _⟩ | ⟨l, rfl, _⟩ | ⟨_, _, _, rfl, _⟩ |
    ⟨_, rfl, _⟩
  · rfl
  · rfl
  · cases l with
    | bool b => cases b <;> rfl
    | _ => rfl
  · rfl
  · rfl

theorem carries_access (htarget : Carries (call .operand) startsOperand ts (readPrimary ts))
    (h : CarriesBelow ts.length 0 (call .or)) :
    Carries (ofLevel call .access) startsOperand ts (Level.read .access ts) where
  reads hr := by
    obtain ⟨target, mid, ht, hs⟩ := read_access_iff.mp hr
    obtain ⟨more, hmore, rfl⟩ := suffixes_read h (Nat.le_of_lt ht.shorter) hs
    simp [ofLevel, htarget.reads ht, hmore]
  fails hf := by
    rcases read_access_fails.mp hf with hf | ⟨target, mid, ht, hf⟩
    · simp [ofLevel, htarget.fails hf]
    · have hmore := suffixes_fail h (Nat.le_of_lt ht.shorter) hf
      simp [ofLevel, htarget.reads ht, hmore, any_startsOperand ht]

/-- The symbols that stand in front of an expression. -/
def prefixes : List Symbol := [.minus, .not, .mapOpen]

theorem any_startsWith_eq (h : ∀ s ∈ prefixes, ¬ ts.head? = some (.symbol s)) :
    ts.head?.any startsWith = ts.head?.any startsOperand := by
  cases ts with
  | nil => rfl
  | cons t ts =>
    cases t with
    | symbol s => cases s <;> first | rfl | exact absurd rfl (h _ (by decide))
    | _ => rfl

theorem unary_of_ne (h : ∀ s ∈ prefixes, ¬ ts.head? = some (.symbol s)) :
    ofLevel call .unary ts = call .access ts := by
  have hminus := h .minus (by decide)
  have hnot := h .not (by decide)
  have hopen := h .mapOpen (by decide)
  simp [ofLevel, hminus, hnot, enclosed_of_ne hopen]

theorem carries_unary (haccess : Carries (call .access) startsOperand ts (Level.read .access ts))
    (hunary : CarriesBelow ts.length 5 (call .unary)) (h : CarriesBelow ts.length 0 (call .or)) :
    Carries (ofLevel call .unary) startsWith ts (readAt 5 ts) where
  reads hr := by
    rw [readAt_five] at hr
    rcases readUnary_iff.mp hr with ⟨arg, mid, rfl, rfl, harg⟩ | ⟨arg, mid, rfl, rfl, harg⟩ |
      ⟨arg, mid, rfl, rfl, harg⟩ | ⟨target, mid, ht, hs⟩
    · rw [← readAt_five] at harg
      simp [ofLevel, (hunary mid (by simp)).commit_reads harg]
    · rw [← readAt_five] at harg
      simp [ofLevel, (hunary mid (by simp)).commit_reads harg]
    · simp [ofLevel, (h mid (by simp)).enclosed_reads harg]
    · rw [unary_of_ne, haccess.reads (read_access_iff.mpr ⟨target, mid, ht, hs⟩)]
      intro s hp hts
      obtain ⟨mid, rfl⟩ := List.head?_eq_some_iff.mp hts
      exact not_reads_readPrimary (by simpa [prefixes] using hp) ht
  fails hf := by
    rw [readAt_five] at hf
    rcases readUnary_fails.mp hf with ⟨mid, rfl, harg⟩ | ⟨mid, rfl, harg⟩ | ⟨mid, rfl, harg⟩ |
      ⟨hp, hf⟩
    · rw [← readAt_five] at harg
      simp [ofLevel, (hunary mid (by simp)).commit_fails harg, startsWith]
    · rw [← readAt_five] at harg
      simp [ofLevel, (hunary mid (by simp)).commit_fails harg, startsWith]
    · simp [ofLevel, (h mid (by simp)).enclosed_fails harg, startsWith]
    · rw [unary_of_ne hp, haccess.fails (read_access_fails.mpr hf), any_startsWith_eq hp]

/-- The rule of a level carries its reader out where the rules that it may call do. -/
theorem carries_ofLevel {level : Level}
    (h : ∀ level' ts', LeadsOn level ts level' ts' →
      Carries (call level') level'.starts ts' (level'.read ts')) :
    Carries (ofLevel call level) level.starts ts (level.read ts) := by
  have same : ∀ level', level.rank < level'.rank →
      Carries (call level') level'.starts ts (level'.read ts) :=
    fun level' hl => h level' ts (.inr ⟨rfl, hl⟩)
  have below : ∀ level' ts', ts'.length < ts.length →
      Carries (call level') level'.starts ts' (level'.read ts') :=
    fun level' ts' hts => h level' ts' (.inl hts)
  cases level with
  | or => exact carries_chain (by decide) (by decide) (same .and (by decide)) (below .and)
  | and =>
    exact carries_chain (by decide) (by decide) (same .comparison (by decide)) (below .comparison)
  | comparison => exact carries_comparison (same .sum (by decide)) (below .sum)
  | sum =>
    exact carries_chain (by decide) (by decide) (same .product (by decide)) (below .product)
  | product =>
    exact carries_chain (by decide) (by decide) (same .unary (by decide)) (below .unary)
  | unary => exact carries_unary (same .access (by decide)) (below .unary) (below .or)
  | access => exact carries_access (same .operand (by decide)) (below .or)
  | operand => exact carries_operand (below .or)

end Levels

/-! ## All levels -/

theorem carries_divert (other : Level → Rule Expr) {level : Level} {ts : List Token}
    (h : ∀ level' ts', LeadsOn level ts level' ts' →
      Carries (expression level') level'.starts ts' (level'.read ts')) :
    Carries (ofLevel (divert other level ts) level) level.starts ts (level.read ts) :=
  carries_ofLevel fun level' ts' hcall =>
    { reads := fun hr => (if_pos hcall).trans ((h level' ts' hcall).reads hr)
      fails := fun hf => (if_pos hcall).trans ((h level' ts' hcall).fails hf) }

/-- Each level does what its reader does, so that none of its calls goes astray. -/
theorem carries_expression (level : Level) (ts : List Token) :
    Carries (expression level) level.starts ts (level.read ts) := by
  have h := carries_divert (fun _ _ => .error .astray)
    fun level' ts' (hcall : LeadsOn level ts level' ts') => carries_expression level' ts'
  exact ⟨fun hr => (expression_apply level ts).trans (h.reads hr),
    fun hf => (expression_apply level ts).trans (h.fails hf)⟩
termination_by (ts.length, 7 - level.rank)
decreasing_by
  rcases hcall with h | ⟨rfl, h⟩
  · exact .left _ _ h
  · have := level'.rank_le
    exact .right _ (by omega)

/-- All calls lead on, as it makes no difference what those that do not would do. -/
theorem expression_eq_divert (other : Level → Rule Expr) (level : Level) (ts : List Token) :
    expression level ts = ofLevel (divert other level ts) level ts :=
  (carries_expression level ts).unique
    (carries_divert other fun level' ts' _ => carries_expression level' ts')

/-- The watch over the calls can be taken away. -/
theorem expression_eq (level : Level) : expression level = ofLevel expression level := by
  funext ts
  have hdivert : divert expression level ts = expression := by
    funext level' ts'
    exact ite_self _
  rw [expression_eq_divert expression, hdivert]

end Rule
end PathQuery
