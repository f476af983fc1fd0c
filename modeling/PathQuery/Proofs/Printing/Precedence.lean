import PathQuery.Proofs.Grammar.Expression

/-! Expressions as tokens with the fewest parentheses.
Every place of an expression asks for operators that bind at least so tightly, and a part that does
not stands in parentheses. What is written is read back, and in no other way can the same expression
be written with fewer parentheses. -/
namespace PathQuery

/-! ## Tokens of an expression -/

def UnaryOp.symbol : UnaryOp → Symbol
  | .neg => .minus
  | .not => .not

/-- The level that the left operand needs: chains grow to the left, but not chains of comparisons. -/
def BinaryOp.leftLevel (level : Nat) : Nat :=
  if level = 2 then level + 1 else level

namespace Expr

/-- The level of signs and negations, above all binary operators. -/
def unaryLevel : Nat := 5

/-- The level of accesses and of what is no operation, above all operators. -/
def accessLevel : Nat := 6

/-- How tightly an expression holds together. -/
def level : Expr → Nat
  | .binary op _ _ => op.precedence
  | .unary _ _ => unaryLevel
  | _ => accessLevel

/-- The tokens of an expression where it needs a level, in parentheses if it has a lower one. -/
def fit (needed : Nat) (e : Expr) (ts : List Token) : List Token :=
  if needed ≤ e.level then ts else .symbol .parenOpen :: (ts ++ [.symbol .parenClose])

mutual

/-- The tokens of an expression, with parentheses only where a part has too low a level. -/
def tokens : Expr → List Token
  | .literal l => [l.token]
  | .current => [.symbol .current]
  | .root => [.symbol .root]
  | .property target name =>
    target.fit accessLevel (tokens target) ++ [.symbol .dot, .identifier name]
  | .element target index =>
    target.fit accessLevel (tokens target) ++
      .symbol .bracketOpen :: (tokens index ++ [.symbol .bracketClose])
  | .call target method args =>
    target.fit accessLevel (tokens target) ++ .symbol .dot :: .identifier method.word ::
      .symbol .parenOpen :: (argumentTokens args ++ [.symbol .parenClose])
  | .coerce c arg =>
    .identifier c.word :: .symbol .parenOpen :: (tokens arg ++ [.symbol .parenClose])
  | .unary op arg => .symbol op.symbol :: arg.fit unaryLevel (tokens arg)
  | .binary op lhs rhs =>
    lhs.fit (BinaryOp.leftLevel op.precedence) (tokens lhs) ++
      .symbol op.symbol :: rhs.fit (op.precedence + 1) (tokens rhs)

def argumentTokens : List Expr → List Token
  | [] => []
  | e :: es => tokens e ++ moreArgumentTokens es

def moreArgumentTokens : List Expr → List Token
  | [] => []
  | e :: es => .symbol .comma :: (tokens e ++ moreArgumentTokens es)

end

variable {n : Nat} {e : Expr}

theorem fit_of_le (h : n ≤ e.level) (ts : List Token) : e.fit n ts = ts := if_pos h

theorem fit_of_lt (h : e.level < n) (ts : List Token) :
    e.fit n ts = .symbol .parenOpen :: (ts ++ [.symbol .parenClose]) :=
  if_neg (Nat.not_le_of_lt h)

end Expr

namespace Grammar

/-! ## Growing derivations on the right -/

/-- One more operator of a level, other than a comparison, behind those of a chain. -/
theorem exists_operators_snoc {n : Nat} {op : BinaryOp} (h : op.precedence = n)
    (hn : n ≠ 2) (operand : Chain (n + 1)) : ∀ more : Operators n,
    ∃ all : Operators n, all.tokens = more.tokens ++ .symbol op.symbol :: operand.tokens ∧
      ∀ lhs, all.apply lhs = .binary op (more.apply lhs) operand.expr
  | .nil => ⟨.cons op h hn operand .nil, by simp [Operators.tokens], fun _ => rfl⟩
  | .cons op' h' hn' operand' more => by
    obtain ⟨all, ht, he⟩ := exists_operators_snoc h hn operand more
    refine ⟨.cons op' h' hn' operand' all, ?_, fun lhs => he _⟩
    simp [Operators.tokens, ht]
  | .comparison _ _ hc _ => absurd hc hn

theorem exists_chain_binary {n m : Nat} {op : BinaryOp} (h : op.precedence = n) (hn : n < 5)
    (hm : BinaryOp.leftLevel n = m) (lhs : Chain m) (rhs : Chain (n + 1)) :
    ∃ c : Chain n, c.tokens = lhs.tokens ++ .symbol op.symbol :: rhs.tokens ∧
      c.expr = .binary op lhs.expr rhs.expr := by
  by_cases hc : n = 2
  · obtain rfl : n + 1 = m := by rw [← hm, BinaryOp.leftLevel, if_pos hc]
    obtain ⟨more, ht, he⟩ := exists_operators_of_chain h rhs
    exact ⟨.operands hn lhs more, by simp [Chain.tokens, ht], by simp [Chain.expr, he]⟩
  · obtain rfl : n = m := by rw [← hm, BinaryOp.leftLevel, if_neg hc]
    cases lhs with
    | operands _ first more =>
      obtain ⟨all, ht, he⟩ := exists_operators_snoc h hc rhs more
      exact ⟨.operands hn first all, by simp [Chain.tokens, ht], by simp [Chain.expr, he]⟩
    | unary u => exact absurd hn (by decide)

theorem exists_accessors_append (b : Accessors) : ∀ a : Accessors, ∃ all : Accessors,
    all.tokens = a.tokens ++ b.tokens ∧ ∀ target, all.apply target = b.apply (a.apply target)
  | .nil => ⟨b, rfl, fun _ => rfl⟩
  | .element index more => by
    obtain ⟨all, ht, he⟩ := exists_accessors_append b more
    exact ⟨.element index all, by simp [Accessors.tokens, ht], fun _ => he _⟩
  | .property name more => by
    obtain ⟨all, ht, he⟩ := exists_accessors_append b more
    exact ⟨.property name all, by simp [Accessors.tokens, ht], fun _ => he _⟩
  | .call method args more => by
    obtain ⟨all, ht, he⟩ := exists_accessors_append b more
    exact ⟨.call method args all, by simp [Accessors.tokens, ht], fun _ => he _⟩

/-! ## A derivation of the tokens -/

/-- The tokens of an expression have a derivation wherever its own level is enough. -/
structure Derivable (e : Expr) : Prop where
  chain : ∀ n ≤ e.level, n ≤ 5 → ∃ c : Chain n, c.tokens = e.tokens ∧ c.expr = e
  access : Expr.accessLevel ≤ e.level →
    ∃ (p : Primary) (a : Accessors), p.tokens ++ a.tokens = e.tokens ∧ a.apply p.expr = e

namespace Derivable

variable {e : Expr}

theorem of_access (p : Primary) (a : Accessors) (ht : p.tokens ++ a.tokens = e.tokens)
    (he : a.apply p.expr = e) : Derivable e where
  chain n _ hn := by
    obtain ⟨c, hct, hce⟩ := exists_chain_of_unary hn (.access p a)
    exact ⟨c, hct.trans ht, hce.trans he⟩
  access _ := ⟨p, a, ht, he⟩

theorem of_primary (p : Primary) (ht : p.tokens = e.tokens) (he : p.expr = e) : Derivable e :=
  of_access p .nil (by simpa [Accessors.tokens] using ht) he

theorem of_unary (u : Unary) (hl : e.level = Expr.unaryLevel) (ht : u.tokens = e.tokens)
    (he : u.expr = e) : Derivable e where
  chain n _ hn := by
    obtain ⟨c, hct, hce⟩ := exists_chain_of_unary hn u
    exact ⟨c, hct.trans ht, hce.trans he⟩
  access h := by
    rw [hl] at h
    exact absurd h (by decide)

theorem of_chain {n : Nat} (c : Chain n) (hn : n < 5) (hl : e.level = n) (ht : c.tokens = e.tokens)
    (he : c.expr = e) : Derivable e where
  chain m hm _ := by
    obtain ⟨d, hdt, hde⟩ := exists_chain_of_le (hl ▸ hm) (Nat.le_of_lt hn) c
    exact ⟨d, hdt.trans ht, hde.trans he⟩
  access h := by
    unfold Expr.accessLevel at h
    omega

theorem exists_whole (h : Derivable e) : ∃ c : Chain 0, c.tokens = e.tokens ∧ c.expr = e :=
  h.chain 0 (Nat.zero_le _) (Nat.zero_le _)

/-- A derivation where a level is needed, perhaps in parentheses. -/
theorem exists_chain (h : Derivable e) {n : Nat} (hn : n ≤ 5) :
    ∃ c : Chain n, c.tokens = e.fit n e.tokens ∧ c.expr = e := by
  rcases Nat.lt_or_ge e.level n with hlt | hle
  · rw [Expr.fit_of_lt hlt]
    obtain ⟨inner, ht, he⟩ := h.exists_whole
    obtain ⟨c, hct, hce⟩ := exists_chain_of_primary hn (.enclosed inner)
    exact ⟨c, by rw [hct, Primary.tokens, ht], hce.trans he⟩
  · rw [Expr.fit_of_le hle]
    exact h.chain n hle hn

theorem exists_operand (h : Derivable e) :
    ∃ u : Unary, u.tokens = e.fit Expr.unaryLevel e.tokens ∧ u.expr = e := by
  obtain ⟨c, ht, he⟩ := h.exists_chain (Nat.le_refl 5)
  cases c with
  | operands hlt _ _ => exact absurd hlt (by decide)
  | unary u => exact ⟨u, ht, he⟩

theorem exists_target (h : Derivable e) : ∃ (p : Primary) (a : Accessors),
    p.tokens ++ a.tokens = e.fit Expr.accessLevel e.tokens ∧ a.apply p.expr = e := by
  rcases Nat.lt_or_ge e.level Expr.accessLevel with hlt | hle
  · rw [Expr.fit_of_lt hlt]
    obtain ⟨inner, ht, he⟩ := h.exists_whole
    exact ⟨.enclosed inner, .nil, by simp [Primary.tokens, Accessors.tokens, ht], he⟩
  · rw [Expr.fit_of_le hle]
    exact h.access hle

/-- One more accessor behind a target. -/
theorem of_target {target : Expr} (h : Derivable target) (b : Accessors)
    (ht : target.fit Expr.accessLevel target.tokens ++ b.tokens = e.tokens)
    (he : b.apply target = e) : Derivable e := by
  obtain ⟨p, a, hpt, hpe⟩ := h.exists_target
  obtain ⟨all, hat, hae⟩ := exists_accessors_append b a
  refine of_access p all ?_ ?_
  · rw [hat, ← List.append_assoc, hpt, ht]
  · rw [hae, hpe, he]

end Derivable

mutual

theorem derivable : ∀ e : Expr, Derivable e
  | .literal l => .of_primary (.literal l) (by simp [Primary.tokens, Expr.tokens]) rfl
  | .current => .of_primary .current (by simp [Primary.tokens, Expr.tokens]) rfl
  | .root => .of_primary .root (by simp [Primary.tokens, Expr.tokens]) rfl
  | .property target name =>
    (derivable target).of_target (.property name .nil)
      (by simp [Accessors.tokens, Expr.tokens]) rfl
  | .element target index => by
    obtain ⟨c, ht, he⟩ := (derivable index).exists_whole
    exact (derivable target).of_target (.element c .nil)
      (by simp [Accessors.tokens, Expr.tokens, ht]) (by simp [Accessors.apply, he])
  | .call target method args => by
    obtain ⟨a, ht, he⟩ := exists_argumentTokens args
    exact (derivable target).of_target (.call method a .nil)
      (by simp [Accessors.tokens, Expr.tokens, ht]) (by simp [Accessors.apply, he])
  | .coerce k arg => by
    obtain ⟨c, ht, he⟩ := (derivable arg).exists_whole
    exact .of_primary (.coerce k c) (by simp [Primary.tokens, Expr.tokens, ht])
      (by simp [Primary.expr, he])
  | .unary .neg arg => by
    obtain ⟨u, ht, he⟩ := (derivable arg).exists_operand
    exact .of_unary (.minus u) rfl (by simp [Unary.tokens, Expr.tokens, UnaryOp.symbol, ht])
      (by simp [Unary.expr, he])
  | .unary .not arg => by
    obtain ⟨u, ht, he⟩ := (derivable arg).exists_operand
    exact .of_unary (.not u) rfl (by simp [Unary.tokens, Expr.tokens, UnaryOp.symbol, ht])
      (by simp [Unary.expr, he])
  | .binary op lhs rhs => by
    have hl : op.precedence < 5 := by cases op <;> decide
    have hleft : BinaryOp.leftLevel op.precedence ≤ 5 := by
      unfold BinaryOp.leftLevel
      split <;> omega
    obtain ⟨l, hlt, hle⟩ := (derivable lhs).exists_chain hleft
    obtain ⟨r, hrt, hre⟩ := (derivable rhs).exists_chain (Nat.succ_le_of_lt hl)
    obtain ⟨c, ht, he⟩ := exists_chain_binary rfl hl rfl l r
    exact .of_chain c hl rfl (by rw [ht, hlt, hrt, Expr.tokens]) (by rw [he, hle, hre])

theorem exists_argumentTokens : ∀ es : List Expr,
    ∃ a : Arguments, a.tokens = Expr.argumentTokens es ∧ a.exprs = es
  | [] => ⟨.none, by simp [Arguments.tokens, Expr.argumentTokens], rfl⟩
  | e :: es => by
    obtain ⟨c, ht, he⟩ := (derivable e).exists_whole
    obtain ⟨a, hat, hae⟩ := exists_moreArgumentTokens es
    exact ⟨.some c a, by simp [Arguments.tokens, Expr.argumentTokens, ht, hat],
      by simp [Arguments.exprs, he, hae]⟩

theorem exists_moreArgumentTokens : ∀ es : List Expr,
    ∃ a : MoreArguments, a.tokens = Expr.moreArgumentTokens es ∧ a.exprs = es
  | [] => ⟨.nil, by simp [MoreArguments.tokens, Expr.moreArgumentTokens], rfl⟩
  | e :: es => by
    obtain ⟨c, ht, he⟩ := (derivable e).exists_whole
    obtain ⟨a, hat, hae⟩ := exists_moreArgumentTokens es
    exact ⟨.cons c a, by simp [MoreArguments.tokens, Expr.moreArgumentTokens, ht, hat],
      by simp [MoreArguments.exprs, he, hae]⟩

end

/-! ## Counting parentheses -/

/-- How many parentheses some tokens close. -/
def closings (ts : List Token) : Nat := ts.count (.symbol .parenClose)

@[simp] theorem closings_nil : closings [] = 0 := rfl

@[simp] theorem closings_append (ts us : List Token) :
    closings (ts ++ us) = closings ts + closings us := List.count_append

@[simp] theorem closings_parenClose (ts : List Token) :
    closings (.symbol .parenClose :: ts) = closings ts + 1 := List.count_cons_self

@[simp] theorem closings_cons {t : Token} (h : t ≠ .symbol .parenClose) (ts : List Token) :
    closings (t :: ts) = closings ts := List.count_cons_of_ne h

@[simp] theorem closings_operator (op : BinaryOp) (ts : List Token) :
    closings (.symbol op.symbol :: ts) = closings ts := by
  cases op <;> exact closings_cons (by decide) ts

/-- How many parentheses an expression takes where it needs a level. -/
def width (n : Nat) (e : Expr) : Nat := closings (e.fit n e.tokens)

variable {n m : Nat} {e : Expr}

theorem width_of_le (h : n ≤ e.level) : width n e = closings e.tokens := by
  rw [width, Expr.fit_of_le h]

theorem width_of_lt (h : e.level < n) : width n e = closings e.tokens + 1 := by
  rw [width, Expr.fit_of_lt h]
  simp

theorem width_le (n : Nat) (e : Expr) : width n e ≤ closings e.tokens + 1 := by
  rcases Nat.lt_or_ge e.level n with hlt | hle
  · exact Nat.le_of_eq (width_of_lt hlt)
  · rw [width_of_le hle]
    exact Nat.le_succ _

theorem width_mono (h : n ≤ m) (e : Expr) : width n e ≤ width m e := by
  rcases Nat.lt_or_ge e.level m with hlt | hle
  · rw [width_of_lt hlt]
    exact width_le n e
  · have hn : width n e = closings e.tokens := width_of_le (Nat.le_trans h hle)
    exact Nat.le_of_eq (hn.trans (width_of_le hle).symm)

/-- Where no operator is needed, an expression takes what is inside it. -/
theorem width_zero (e : Expr) : width 0 e = closings e.tokens := width_of_le (Nat.zero_le _)

/-- What has no operator outside takes no parentheses of its own as a target. -/
theorem width_access (h : e.level = Expr.accessLevel) :
    width Expr.accessLevel e = closings e.tokens :=
  width_of_le (Nat.le_of_eq h.symm)

theorem width_unary (op : UnaryOp) (arg : Expr) :
    width Expr.unaryLevel (.unary op arg) = width Expr.unaryLevel arg := by
  have h : Expr.unaryLevel ≤ (Expr.unary op arg).level := Nat.le_refl _
  rw [width_of_le h, Expr.tokens]
  cases op <;> exact closings_cons (by decide) _

theorem width_binary {op : BinaryOp} (h : op.precedence = n) (lhs rhs : Expr) :
    width n (.binary op lhs rhs) = width (BinaryOp.leftLevel n) lhs + width (n + 1) rhs := by
  have hle : n ≤ (Expr.binary op lhs rhs).level := Nat.le_of_eq h.symm
  rw [width_of_le hle, Expr.tokens, closings_append, closings_operator, h]
  rfl

theorem le_leftLevel (n : Nat) : n ≤ BinaryOp.leftLevel n := by
  unfold BinaryOp.leftLevel
  split <;> omega

theorem leftLevel_le (n : Nat) : BinaryOp.leftLevel n ≤ n + 1 := by
  unfold BinaryOp.leftLevel
  split <;> omega

/-! ## No derivation has fewer parentheses -/

mutual

theorem width_le_chain {n : Nat} : ∀ c : Chain n, width n c.expr ≤ closings c.tokens
  | .operands _ first more => by
    have hf := width_le_chain first
    have hm := width_le_operators more first.expr
    have hleft := width_mono (leftLevel_le n) first.expr
    rw [Chain.expr, Chain.tokens, closings_append]
    omega
  | .unary u => width_le_unary u

theorem width_le_operators {n : Nat} : ∀ (more : Operators n) (lhs : Expr),
    width n (more.apply lhs) ≤ width (BinaryOp.leftLevel n) lhs + closings more.tokens
  | .nil, lhs => width_mono (le_leftLevel n) lhs
  | .comparison op h _ operand, lhs => by
    have ho := width_le_chain operand
    rw [Operators.apply, width_binary h, Operators.tokens, closings_operator]
    omega
  | .cons op h hn operand more, lhs => by
    -- the chain so far becomes the left operand, which needs the level of the chain and no more
    have ho := width_le_chain operand
    have hm := width_le_operators more (.binary op lhs operand.expr)
    have hleft : BinaryOp.leftLevel n = n := if_neg hn
    rw [hleft, width_binary h, hleft] at hm
    rw [hleft, Operators.apply, Operators.tokens, closings_operator, closings_append]
    omega

theorem width_le_unary : ∀ u : Unary, width Expr.unaryLevel u.expr ≤ closings u.tokens
  | .minus operand => by
    have ho := width_le_unary operand
    rw [Unary.expr, width_unary]
    simpa [Unary.tokens] using ho
  | .not operand => by
    have ho := width_le_unary operand
    rw [Unary.expr, width_unary]
    simpa [Unary.tokens] using ho
  | .negated e => by
    -- the parenthesis that the symbol opens pays for those that the operand may need
    have he := width_le_chain e
    have hwidth := width_le Expr.unaryLevel e.expr
    have ht : closings (Unary.negated e).tokens = closings e.tokens + 1 := by simp [Unary.tokens]
    rw [width_zero] at he
    rw [Unary.expr, width_unary]
    omega
  | .access target accessors => by
    have ht := width_le_primary target
    have ha := width_le_accessors accessors target.expr
    have hmono : width Expr.unaryLevel (accessors.apply target.expr) ≤
        width Expr.accessLevel (accessors.apply target.expr) := width_mono (by decide) _
    rw [Unary.expr, Unary.tokens, closings_append]
    omega

theorem width_le_primary : ∀ p : Primary, width Expr.accessLevel p.expr ≤ closings p.tokens
  | .current => Nat.le_refl _
  | .root => Nat.le_refl _
  | .literal _ => Nat.le_refl _
  | .coerce c arg => by
    have ha := width_le_chain arg
    have hwidth : width Expr.accessLevel (.coerce c arg.expr) =
      closings (Expr.coerce c arg.expr).tokens := width_access rfl
    rw [width_zero] at ha
    rw [Primary.expr, hwidth]
    simpa [Primary.tokens, Expr.tokens] using ha
  | .enclosed e => by
    have he := width_le_chain e
    have hwidth := width_le Expr.accessLevel e.expr
    have ht : closings (Primary.enclosed e).tokens = closings e.tokens + 1 := by
      simp [Primary.tokens]
    rw [width_zero] at he
    rw [Primary.expr]
    omega

theorem width_le_accessors : ∀ (a : Accessors) (target : Expr),
    width Expr.accessLevel (a.apply target) ≤ width Expr.accessLevel target + closings a.tokens
  | .nil, target => Nat.le_add_right _ _
  | .property name more, target => by
    have hm := width_le_accessors more (.property target name)
    have ht : width Expr.accessLevel (.property target name) = width Expr.accessLevel target := by
      rw [width_access (e := .property target name) rfl, Expr.tokens]
      simp [width]
    have ha : closings (Accessors.property name more).tokens = closings more.tokens := by
      simp [Accessors.tokens]
    rw [Accessors.apply]
    omega
  | .call method args more, target => by
    have hargs := closings_le_arguments args
    have hm := width_le_accessors more (.call target method args.exprs)
    have ht : width Expr.accessLevel (.call target method args.exprs) =
        width Expr.accessLevel target + (closings (Expr.argumentTokens args.exprs) + 1) := by
      rw [width_access (e := .call target method args.exprs) rfl, Expr.tokens]
      simp [width]
    have ha : closings (Accessors.call method args more).tokens =
        closings args.tokens + (closings more.tokens + 1) := by
      simp [Accessors.tokens]
    rw [Accessors.apply]
    omega
  | .element index more, target => by
    have hi := width_le_chain index
    have hm := width_le_accessors more (.element target index.expr)
    have ht : width Expr.accessLevel (.element target index.expr) =
        width Expr.accessLevel target + closings index.expr.tokens := by
      rw [width_access (e := .element target index.expr) rfl, Expr.tokens]
      simp [width]
    have ha : closings (Accessors.element index more).tokens =
        closings index.tokens + closings more.tokens := by
      simp [Accessors.tokens]
    rw [width_zero] at hi
    rw [Accessors.apply]
    omega

theorem closings_le_arguments : ∀ args : Arguments,
    closings (Expr.argumentTokens args.exprs) ≤ closings args.tokens
  | .none => Nat.zero_le _
  | .some first more => by
    have hf := width_le_chain first
    have hm := closings_le_moreArguments more
    rw [width_zero] at hf
    rw [Arguments.exprs, Expr.argumentTokens, Arguments.tokens, closings_append, closings_append]
    omega

theorem closings_le_moreArguments : ∀ args : MoreArguments,
    closings (Expr.moreArgumentTokens args.exprs) ≤ closings args.tokens
  | .nil => Nat.zero_le _
  | .cons next more => by
    have hn := width_le_chain next
    have hm := closings_le_moreArguments more
    rw [width_zero] at hn
    rw [MoreArguments.exprs, Expr.moreArgumentTokens, MoreArguments.tokens,
      closings_cons (by decide), closings_cons (by decide), closings_append, closings_append]
    omega

end

/-- An expression is read back from its tokens, whatever follows that ends an expression, and no
tokens that are read as this expression have fewer parentheses. -/
theorem reads_fewest_parentheses (e : Expr) :
    (∀ rest : List Token, (∀ t ∈ rest.head?,
        t ∈ [.finish, .symbol .parenClose, .symbol .bracketClose, .symbol .comma]) →
      Reads (Expr.read (e.tokens ++ rest)) e rest) ∧
    ∀ ts rest, Reads (Expr.read (ts ++ rest)) e rest →
      e.tokens.count (.symbol .parenClose) ≤ ts.count (.symbol .parenClose) := by
  constructor
  · intro rest hrest
    have hstops : Stops 0 rest := by
      intro t ht
      have hclosers := hrest t ht
      simp only [List.mem_cons, List.not_mem_nil, or_false] at hclosers
      rcases hclosers with rfl | rfl | rfl | rfl <;> rfl
    obtain ⟨c, ht, he⟩ := (derivable e).exists_whole
    have hread := reads_chain c rest hstops
    rw [ht, he] at hread
    exact hread
  · intro ts rest h
    obtain ⟨c, ht, rfl⟩ := exists_chain (Nat.zero_le 5) h
    obtain rfl : c.tokens = ts := List.append_cancel_right ht
    have hc := width_le_chain c
    rw [width_zero] at hc
    exact hc

/-- Operands on all levels: a comparison as an operand of a comparison, an operand of `*` that is a
difference, an operand of `&&` that is a disjunction, and a sign inside a target stand in parentheses,
and nothing else does. -/
theorem reads_fewest_parentheses_sample :
    let comparison : Expr := .binary .equal (.binary .less .current .root)
      (.binary .add .current (.binary .mul .root (.binary .sub .current .root)))
    let e : Expr := .binary .and comparison
      (.binary .or .current (.property (.unary .neg .root) "a"))
    let disjunction : List Token := [.symbol .parenOpen, .symbol .current, .symbol .or,
      .symbol .parenOpen, .symbol .minus, .symbol .root, .symbol .parenClose, .symbol .dot,
      .identifier "a", .symbol .parenClose]
    let ts : List Token := [.symbol .parenOpen, .symbol .current, .symbol .less, .symbol .root,
      .symbol .parenClose, .symbol .equal, .symbol .current, .symbol .plus, .symbol .root,
      .symbol .star, .symbol .parenOpen, .symbol .current, .symbol .minus, .symbol .root,
      .symbol .parenClose, .symbol .and] ++ disjunction
    let more : List Token := [.symbol .parenOpen, .symbol .parenOpen, .symbol .current,
      .symbol .less, .symbol .root, .symbol .parenClose, .symbol .equal, .symbol .parenOpen,
      .symbol .current, .symbol .plus, .symbol .root, .symbol .star, .symbol .parenOpen,
      .symbol .current, .symbol .minus, .symbol .root, .symbol .parenClose, .symbol .parenClose,
      .symbol .parenClose, .symbol .and] ++ disjunction
    e.tokens = ts ∧ Reads (Expr.read (ts ++ [.symbol .comma])) e [.symbol .comma] ∧
      Reads (Expr.read (more ++ [.finish])) e [.finish] ∧
      ts.count (.symbol .parenClose) ≤ more.count (.symbol .parenClose) := by
  intro comparison e disjunction ts more
  have htokens : e.tokens = ts := by
    simp [e, comparison, ts, disjunction, Expr.tokens, Expr.fit, Expr.level, BinaryOp.precedence,
      BinaryOp.leftLevel, BinaryOp.symbol, UnaryOp.symbol, Expr.unaryLevel, Expr.accessLevel]
  have hread : Reads (Expr.read (more ++ [.finish])) e [.finish] :=
    ⟨by simp [more, disjunction], by with_unfolding_all rfl⟩
  have hrest : ∀ t ∈ [Token.symbol .comma].head?,
      t ∈ [.finish, .symbol .parenClose, .symbol .bracketClose, .symbol .comma] := by simp
  refine ⟨htokens, ?_, hread, ?_⟩
  · rw [← htokens]
    exact (reads_fewest_parentheses e).1 _ hrest
  · rw [← htokens]
    exact (reads_fewest_parentheses e).2 more _ hread

end Grammar
end PathQuery
