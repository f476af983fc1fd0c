import PathQuery.Expr.Evaluation
import PathQuery.Proofs.Double.Integers

/-! How computed numbers are stored.
Whatever an expression computes is a double first and a value only once it is stored: as an integer if
it is whole and below `9e15` in magnitude, where no two integers share a double, and as a finite double
otherwise. A result that is not finite is no number at all. -/
namespace PathQuery

/-! ## Storing a double -/

/-- A stored number that is the stored form of a double. -/
inductive Number.Stores : Double → Number → Prop
  | int {x : FiniteDouble} (hwhole : x.isIntegral = true) (hsmall : x.whole < 9000000000000000) :
    Stores (.finite x) (.int x.toInt)
  | float {x : FiniteDouble} (h : x.isIntegral = true → 9000000000000000 ≤ x.whole) :
    Stores (.finite x) (.float x)

/-- A double that is an integer of 64 bits. -/
structure FiniteDouble.IsInt64 (x : FiniteDouble) : Prop where
  integral : x.isIntegral = true
  least : Double.minInt64 ≤ x.toInt
  greatest : x.toInt ≤ Double.maxInt64

/-- A stored number that is the form of a double in which every integer of 64 bits stays one. -/
inductive Number.StoresInt64 : Double → Number → Prop
  | int {x : FiniteDouble} (h : x.IsInt64) : StoresInt64 (.finite x) (.int x.toInt)
  | float {x : FiniteDouble} (h : ¬ x.IsInt64) : StoresInt64 (.finite x) (.float x)

namespace Number

variable {d : Double} {n : Number} {o : Option Double}

theorem ofDouble?_eq_some_iff : ofDouble? d = some n ↔ Stores d n := by
  cases d with
  | nan => exact ⟨fun h => (by cases h), fun h => (by cases h)⟩
  | infinite negative => exact ⟨fun h => (by cases h), fun h => (by cases h)⟩
  | finite x =>
    rw [ofDouble?, Option.some_inj]
    constructor
    · intro h
      split at h
      case isTrue hsmall =>
        rw [Bool.and_eq_true, decide_eq_true_iff] at hsmall
        exact h ▸ .int hsmall.1 hsmall.2
      case isFalse hlarge =>
        rw [Bool.and_eq_true, decide_eq_true_iff] at hlarge
        exact h ▸ .float fun hwhole => Nat.le_of_not_lt fun hsmall => hlarge ⟨hwhole, hsmall⟩
    · intro h
      cases h with
      | int hwhole hsmall => simp [hwhole, hsmall]
      | float h =>
        rw [if_neg]
        rw [Bool.and_eq_true, decide_eq_true_iff]
        rintro ⟨hwhole, hsmall⟩
        exact absurd (h hwhole) (Nat.not_le_of_lt hsmall)

end Number

namespace Json

variable {d : Double} {n : Number} {o : Option Double}

theorem ofDouble?_eq_number_iff : ofDouble? d = some (.number n) ↔ Number.Stores d n := by
  rw [ofDouble?, ← Number.ofDouble?_eq_some_iff]
  cases Number.ofDouble? d <;> simp

theorem bind_ofDouble?_eq_number_iff :
    o.bind ofDouble? = some (.number n) ↔ ∃ d, o = some d ∧ Number.Stores d n := by
  rw [Option.bind_eq_some_iff]
  exact exists_congr fun d => and_congr_right fun _ => ofDouble?_eq_number_iff

end Json

/-! ## Whole doubles -/

namespace FiniteDouble

theorem whole_mul_one_eq {x : FiniteDouble} (h : x.isIntegral = true) :
    x.whole * Double.one = x.units := by
  rw [isIntegral, beq_iff_eq] at h
  exact Nat.div_mul_cancel (Nat.dvd_of_mod_eq_zero h)

theorem toInt_mul_one {x : FiniteDouble} (h : x.isIntegral = true) :
    x.toInt * Double.one = x.signed := by
  rw [toInt, signed, ← whole_mul_one_eq h, Int.natCast_mul]
  split
  · rw [Int.neg_mul]
  · rfl

theorem natAbs_toInt (x : FiniteDouble) : x.toInt.natAbs = x.whole := by
  rw [toInt]
  split <;> simp

/-- The integers below `9e15` in magnitude have 64 bits. -/
theorem isInt64_of_whole_lt {x : FiniteDouble} (hwhole : x.isIntegral = true)
    (hsmall : x.whole < 9000000000000000) : x.IsInt64 := by
  have habs := x.natAbs_toInt
  refine ⟨hwhole, ?_, ?_⟩
  · unfold Double.minInt64
    omega
  · unfold Double.maxInt64
    omega

/-- The double `2^53`, up to which all integers are doubles. -/
def twoPow53 : FiniteDouble :=
  ⟨false, 9007199254740992 * Double.one, Double.representable_mul_one (by decide)⟩

theorem toInt_twoPow53 : twoPow53.toInt = 9007199254740992 := by decide +kernel

theorem isIntegral_twoPow53 : twoPow53.isIntegral = true := by decide +kernel

theorem whole_twoPow53 : twoPow53.whole = 9007199254740992 := by decide +kernel

theorem isInt64_twoPow53 : twoPow53.IsInt64 := by
  refine ⟨isIntegral_twoPow53, ?_, ?_⟩
  · rw [toInt_twoPow53]
    decide
  · rw [toInt_twoPow53]
    decide

end FiniteDouble

namespace Double

variable {d : Double} {x : FiniteDouble}

theorem round_whole (h : x.isIntegral = true) :
    round x.negative (x.whole * one) 1 = .finite x := by
  rw [FiniteDouble.whole_mul_one_eq h, round_of_representable _ x.representable]

theorem trunc_of_isIntegral (h : d.isIntegral = true) : d.trunc = d := by
  cases d with
  | finite x => exact round_whole h
  | _ => rfl

/-- A whole double that is not zero is the double of its integer. -/
theorem ofInt_toInt (h : x.isIntegral = true) (hpos : 0 < x.whole) :
    ofInt x.toInt = .finite x := by
  have hneg : decide (x.toInt < 0) = x.negative := by
    rw [FiniteDouble.toInt]
    cases x.negative
    · simp
    · simp [hpos]
  rw [ofInt, FiniteDouble.natAbs_toInt, hneg, round_whole h]

end Double

namespace Number

variable {x : FiniteDouble} {n : Number}

/-- The two ways to store a double agree unless it is an integer of 64 bits that reaches `9e15`. -/
theorem storesInt64_iff_stores (h : x.IsInt64 → x.whole < 9000000000000000) :
    StoresInt64 (.finite x) n ↔ Stores (.finite x) n := by
  constructor
  · rintro (⟨hx⟩ | ⟨hx⟩)
    · exact .int hx.integral (h hx)
    · exact .float fun hwhole => Nat.le_of_not_lt fun hsmall =>
        hx (FiniteDouble.isInt64_of_whole_lt hwhole hsmall)
  · rintro (⟨hwhole, hsmall⟩ | ⟨hlarge⟩)
    · exact .int (FiniteDouble.isInt64_of_whole_lt hwhole hsmall)
    · exact .float fun hx => Nat.not_le_of_lt (h hx) (hlarge hx.integral)

theorem whole_lt_of_stores_int {i : Int} (h : Stores (.finite x) (.int i)) :
    x.whole < 9000000000000000 := by
  cases h with
  | int _ hsmall => exact hsmall

end Number

/-! ## What expressions compute -/

/-- The operation on doubles that an operator stands for, if it does. -/
def BinaryOp.onDoubles? : BinaryOp → Option (Double → Double → Double)
  | .add => some Double.add
  | .sub => some Double.sub
  | .mul => some Double.mul
  | .div => some Double.div
  | _ => none

/-- The double that an operator comes to; none of operands that are not numbers, and of texts that
are joined. -/
def BinaryOp.computed? (op : BinaryOp) (lhs rhs : Outcome) : Option Double :=
  op.onDoubles?.bind fun f => lhs.bind fun v => rhs.bind fun w =>
    if op = .add ∧ (v.isString || w.isString) = true then none
    else v.toNumber?.bind fun x => w.toNumber?.map (f x)

/-- The double that a coercion reads a value as; none for texts, which are no numbers. -/
def Coercion.computed? (v : Json) : Coercion → Option Double
  | .string => none
  | .number => v.toNumber?
  | .float => v.leadingNumber?
  | .int => v.leadingNumber?.map Double.trunc

namespace Expr

/-- Whether an expression makes its outcome itself and does not take it from the document. -/
def isComputed : Expr → Bool
  | .literal _ => true
  | .coerce _ _ => true
  | .unary _ _ => true
  | .binary _ _ _ => true
  | _ => false

/-- The double that an expression computes before it is stored. -/
def computed? (current root : Json) : Expr → Option Double
  | .literal (.number d) => some d
  | .coerce c arg => (arg.eval current root).bind fun v => c.computed? v
  | .unary .neg arg => ((arg.eval current root).bind Json.toNumber?).map Double.neg
  | .binary op lhs rhs => op.computed? (lhs.eval current root) (rhs.eval current root)
  | _ => none

end Expr

theorem Coercion.convert_eq_number_iff {c : Coercion} {v : Json} {n : Number} :
    c.convert v = some (.number n) ↔ ∃ d, c.computed? v = some d ∧ Number.Stores d n := by
  cases c with
  | string => simp [convert, computed?]
  | _ => exact Json.bind_ofDouble?_eq_number_iff

theorem Outcome.numeric_eq (f : Double → Double → Double) (lhs rhs : Outcome) :
    numeric f lhs rhs = (lhs.bind fun v => rhs.bind fun w =>
      v.toNumber?.bind fun x => w.toNumber?.map (f x)).bind Json.ofDouble? := by
  cases lhs with
  | none => rfl
  | some v =>
    cases rhs with
    | none => cases v.toNumber? <;> simp [numeric]
    | some w => cases hx : v.toNumber? <;> cases hy : w.toNumber? <;> simp [numeric, hx, hy]

namespace BinaryOp

variable {op : BinaryOp} {lhs rhs : Outcome} {n : Number}

theorem apply_add_eq_number_iff : add.apply lhs rhs = some (.number n) ↔
    ∃ d, add.computed? lhs rhs = some d ∧ Number.Stores d n := by
  cases lhs with
  | none => simp [apply, Outcome.add, computed?, onDoubles?]
  | some v =>
    cases rhs with
    | none => simp [apply, Outcome.add, computed?, onDoubles?]
    | some w =>
      by_cases htext : (v.isString || w.isString) = true
      · simp only [apply, Outcome.add, computed?, onDoubles?, Option.bind_some, htext, if_true]
        simp
      · simp only [apply, Outcome.add, computed?, onDoubles?, Option.bind_some, htext,
          Outcome.numeric_eq]
        exact Json.bind_ofDouble?_eq_number_iff

theorem apply_eq_number_iff : op.apply lhs rhs = some (.number n) ↔
    ∃ d, op.computed? lhs rhs = some d ∧ Number.Stores d n := by
  cases op with
  | add => exact apply_add_eq_number_iff
  | sub =>
    simp [apply, Outcome.numeric_eq, computed?, onDoubles?, Json.bind_ofDouble?_eq_number_iff]
  | mul =>
    simp [apply, Outcome.numeric_eq, computed?, onDoubles?, Json.bind_ofDouble?_eq_number_iff]
  | div =>
    simp [apply, Outcome.numeric_eq, computed?, onDoubles?, Json.bind_ofDouble?_eq_number_iff]
  | _ => simp [apply, Outcome.ofBool, computed?, onDoubles?]

end BinaryOp

namespace Expr
open FiniteDouble (twoPow53 toInt_twoPow53 isIntegral_twoPow53 isInt64_twoPow53 whole_twoPow53)

variable {e arg : Expr} {v root : Json} {n : Number}

/-- The numbers among the outcomes of computing are the stored forms of what is computed. -/
theorem eval_eq_number_iff (h : e.isComputed = true) : e.eval v root = some (.number n) ↔
    ∃ d, e.computed? v root = some d ∧ Number.Stores d n := by
  cases e with
  | literal l =>
    cases l with
    | number d =>
      have hstored : (Json.ofDouble? d).getD .null = .number n ↔
          Json.ofDouble? d = some (.number n) := by
        cases Json.ofDouble? d <;> simp
      rw [eval, Literal.value, computed?, Option.some_inj, hstored, Json.ofDouble?_eq_number_iff]
      simp
    | _ => simp [eval, Literal.value, computed?]
  | coerce c arg =>
    rw [eval, computed?]
    cases arg.eval v root with
    | none => simp
    | some w => exact Coercion.convert_eq_number_iff
  | unary op arg =>
    cases op with
    | neg =>
      rw [eval, UnaryOp.apply, computed?, ← Json.bind_ofDouble?_eq_number_iff, Option.bind_map]
      rfl
    | not => simp [eval, UnaryOp.apply, Outcome.ofBool, computed?]
  | binary op lhs rhs => exact BinaryOp.apply_eq_number_iff
  | _ => cases h

theorem eval_coerce_int {c : Coercion} {i : Int} (hc : c ∈ [Coercion.number, .float, .int])
    (harg : arg.eval v root = some (.number (.int i))) (hi : (Double.ofInt i).isIntegral = true) :
    (coerce c arg).eval v root = Json.ofDouble? (Double.ofInt i) := by
  rw [eval, harg, Option.bind_some]
  cases c with
  | string => simp at hc
  | number => rw [Coercion.convert, Json.toNumber?, Option.bind_some, Number.toDouble]
  | float => rw [Coercion.convert, Json.leadingNumber?, Option.bind_some, Number.toDouble]
  | int =>
    rw [Coercion.convert, Json.leadingNumber?, Option.map_some, Option.bind_some,
      Number.toDouble, Double.trunc_of_isIntegral hi]

theorem eval_coerce_small {c : Coercion} {x : FiniteDouble}
    (hc : c ∈ [Coercion.number, .float, .int])
    (harg : arg.eval v root = some (.number (.int x.toInt)))
    (hsmall : x.whole < 9000000000000000) :
    (coerce c arg).eval v root = some (.number (.int x.toInt)) := by
  have habs : x.toInt.natAbs < 9000000000000000 := x.natAbs_toInt ▸ hsmall
  have hwhole : (Double.ofInt x.toInt).isIntegral = true := Double.isIntegral_ofInt (by omega)
  rw [eval_coerce_int hc harg hwhole, Json.ofDouble?, Number.ofDouble?_ofInt habs,
    Option.map_some]

theorem eval_coerce_large {c : Coercion} {x : FiniteDouble}
    (hc : c ∈ [Coercion.number, .float, .int]) (hx : x.isIntegral = true)
    (harg : arg.eval v root = some (.number (.int x.toInt)))
    (hlarge : 9000000000000000 ≤ x.whole) :
    (coerce c arg).eval v root = some (.number (.float x)) := by
  have hself : Double.ofInt x.toInt = .finite x := Double.ofInt_toInt hx (by omega)
  have hwhole : (Double.ofInt x.toInt).isIntegral = true := by rw [hself]; exact hx
  rw [eval_coerce_int hc harg hwhole, hself, Json.ofDouble?_eq_number_iff]
  exact .float fun _ => hlarge

/-- What is computed keeps all integers of 64 bits exactly if none is computed that reaches `9e15`. -/
theorem eval_storesInt64_iff (h : e.isComputed = true) :
    (∀ n, e.eval v root = some (.number n) ↔
      ∃ d, e.computed? v root = some d ∧ Number.StoresInt64 d n) ↔
    ∀ x, e.computed? v root = some (.finite x) → x.IsInt64 → x.whole < 9000000000000000 := by
  simp only [eval_eq_number_iff h]
  constructor
  · intro hforms x hx hint
    obtain ⟨d, hd, hstores⟩ := (hforms (.int x.toInt)).mpr ⟨_, hx, .int hint⟩
    cases hd.symm.trans hx
    exact Number.whole_lt_of_stores_int hstores
  · intro hsmall n
    refine exists_congr fun d => and_congr_right fun hd => ?_
    cases d with
    | finite x => exact (Number.storesInt64_iff_stores (hsmall x hd)).symm
    | _ => exact ⟨nofun, nofun⟩

/-- A number that an expression computes is stored as an integer if it is whole and below `9e15` in
magnitude and as a finite double otherwise; nothing else that is computed becomes a number. Every integer
of 64 bits stays one exactly for the expressions that compute none from `9e15` on. So a stored integer
that is a double comes back from a conversion to a number as it was exactly below `9e15`, and from there
on as that double. -/
theorem computed_numbers (v root : Json) :
    (∀ (e : Expr) (n : Number), e.isComputed = true →
      (e.eval v root = some (.number n) ↔
        ∃ d, e.computed? v root = some d ∧ Number.Stores d n)) ∧
    (∀ e : Expr, e.isComputed = true →
      ((∀ n, e.eval v root = some (.number n) ↔
          ∃ d, e.computed? v root = some d ∧ Number.StoresInt64 d n) ↔
        ∀ x, e.computed? v root = some (.finite x) → x.IsInt64 → x.whole < 9000000000000000)) ∧
    ∀ c ∈ [Coercion.number, .float, .int], ∀ (arg : Expr) (x : FiniteDouble),
      x.isIntegral = true → arg.eval v root = some (.number (.int x.toInt)) →
      ((coerce c arg).eval v root = some (.number (.int x.toInt)) ↔
        x.whole < 9000000000000000) ∧
      (9000000000000000 ≤ x.whole →
        (coerce c arg).eval v root = some (.number (.float x))) := by
  refine ⟨fun e n => eval_eq_number_iff, fun e => eval_storesInt64_iff, ?_⟩
  intro c hc arg x hx harg
  refine ⟨⟨fun hsame => ?_, eval_coerce_small hc harg⟩, eval_coerce_large hc hx harg⟩
  by_contra hle
  cases (eval_coerce_large hc hx harg (Nat.le_of_not_lt hle)).symm.trans hsame

/-- A text that is read up to its unit, and an integer of 64 bits that does not stay one. -/
theorem computed_numbers_sample :
    (coerce .float .current).eval (.string "8999999999999999.0 kg") .null =
      some (.number (.int 8999999999999999)) ∧
    twoPow53.isIntegral = true ∧ 9000000000000000 ≤ twoPow53.whole ∧
    (coerce .number .root).eval .null (.number (.int twoPow53.toInt)) =
      some (.number (.float twoPow53)) ∧
    ¬ ∀ n, (coerce .number .root).eval .null (.number (.int twoPow53.toInt)) = some (.number n) ↔
      ∃ d, (coerce .number .root).computed? .null (.number (.int twoPow53.toInt)) = some d ∧
        Number.StoresInt64 d n := by
  have hread : (coerce .float .current).computed? (.string "8999999999999999.0 kg") .null =
      some (.ofInt 8999999999999999) := by decide +kernel
  have hstored : Number.Stores (.ofInt 8999999999999999) (.int 8999999999999999) :=
    Number.ofDouble?_eq_some_iff.mp (Number.ofDouble?_ofInt (by decide))
  have hlarge : 9000000000000000 ≤ twoPow53.whole := by rw [whole_twoPow53]; decide
  have hfloat : (coerce .number .root).eval .null (.number (.int twoPow53.toInt)) =
      some (.number (.float twoPow53)) :=
    ((computed_numbers .null _).2.2 .number (by simp) .root twoPow53 isIntegral_twoPow53 rfl).2
      hlarge
  refine ⟨((computed_numbers _ _).1 _ _ rfl).mpr ⟨_, hread, hstored⟩, isIntegral_twoPow53, hlarge,
    hfloat, fun hforms => ?_⟩
  have hself : Double.ofInt twoPow53.toInt = .finite twoPow53 :=
    Double.ofInt_toInt isIntegral_twoPow53 (by omega)
  have hcomputed : (coerce .number .root).computed? .null (.number (.int twoPow53.toInt)) =
      some (.finite twoPow53) := congrArg some hself
  have hsmall := ((computed_numbers .null _).2.1 _ rfl).mp hforms _ hcomputed isInt64_twoPow53
  exact Nat.not_lt_of_le hlarge hsmall

/-- An integer in the range of 64 bits that is a double but is not given back as an integer. -/
theorem int_of_integer_is_float :
    (coerce .int .current).eval (.number (.int 9007199254740992)) .null =
      some (.number (.float twoPow53)) ∧
    twoPow53.isIntegral = true ∧ twoPow53.toInt = 9007199254740992 ∧
    Double.minInt64 ≤ twoPow53.toInt ∧ twoPow53.toInt ≤ Double.maxInt64 := by
  have hlarge : 9000000000000000 ≤ twoPow53.whole := by rw [whole_twoPow53]; decide
  have harg : current.eval (.number (.int 9007199254740992)) .null =
      some (.number (.int twoPow53.toInt)) := by rw [toInt_twoPow53, eval]
  exact ⟨eval_coerce_large (by simp) isIntegral_twoPow53 harg hlarge, isIntegral_twoPow53,
    toInt_twoPow53, isInt64_twoPow53.least, isInt64_twoPow53.greatest⟩

end Expr
end PathQuery
