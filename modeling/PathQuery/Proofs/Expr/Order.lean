import Mathlib.Data.List.Basic
import Mathlib.Logic.ExistsUnique
import Mathlib.Tactic.Common
import PathQuery.Expr.Evaluation

/-! The four relational operators as one partial order.
Two outcomes are in one of three relations or in none, and `<`, `<=`, `>` and `>=` only read off which.
Two strings are in the order of texts and all other values in that of their readings as numbers, so the
order is transitive only along values that are compared in the same way. -/
namespace PathQuery

/-! ## Doubles -/

namespace Double

variable {x y z : Double}

theorem compare?_swap (x y : Double) : y.compare? x = (x.compare? y).map Ordering.swap := by
  unfold compare?
  cases x.key? with
  | none => cases y.key? <;> rfl
  | some a =>
    cases y.key? with
    | none => rfl
    | some b => exact congrArg some (Int.compare_swap a b).symm

theorem compare?_eq_lt_iff :
    x.compare? y = some .lt ↔ ∃ a b, x.key? = some a ∧ y.key? = some b ∧ a < b := by
  unfold compare?
  cases x.key? with
  | none => simp
  | some a =>
    cases y.key? with
    | none => simp
    | some b => simp [Int.compare_eq_lt]

theorem compare?_trans (hxy : x.compare? y = some .lt) (hyz : y.compare? z = some .lt) :
    x.compare? z = some .lt := by
  obtain ⟨a, b, hx, hy, hab⟩ := compare?_eq_lt_iff.mp hxy
  obtain ⟨b', c, hy', hz, hbc⟩ := compare?_eq_lt_iff.mp hyz
  have hb : b = b' := Option.some.inj (hy.symm.trans hy')
  exact compare?_eq_lt_iff.mpr ⟨a, c, hx, hz, by omega⟩

end Double

/-! ## Values -/

namespace Json

variable {a b c : Json}

/-- Values that are not two strings are in the order of their readings as numbers. -/
theorem relate?_of_not_strings (h : (a.isString && b.isString) = false) :
    a.relate? b = a.toNumber?.bind fun x => b.toNumber?.bind x.compare? := by
  unfold relate?
  split
  · cases h
  · cases a.toNumber? with
    | none => rfl
    | some x => cases b.toNumber? <;> rfl

theorem relate?_swap (a b : Json) : b.relate? a = (a.relate? b).map Ordering.swap := by
  by_cases h : (a.isString && b.isString) = true
  · cases a with
    | string s =>
      cases b with
      | string t => exact congrArg some Std.OrientedOrd.eq_swap
      | _ => cases h
    | _ => cases h
  · rw [Bool.not_eq_true] at h
    rw [relate?_of_not_strings h, relate?_of_not_strings (Bool.and_comm _ _ ▸ h)]
    cases a.toNumber? with
    | none => cases b.toNumber? <;> rfl
    | some x =>
      cases b.toNumber? with
      | none => rfl
      | some y => exact Double.compare?_swap x y

theorem relate?_eq_lt_iff (h : (a.isString && b.isString) = false) :
    a.relate? b = some .lt ↔
      ∃ x y, a.toNumber? = some x ∧ b.toNumber? = some y ∧ x.compare? y = some .lt := by
  rw [relate?_of_not_strings h]
  simp only [Option.bind_eq_some_iff]
  constructor
  · rintro ⟨x, hx, y, hy, hxy⟩
    exact ⟨x, y, hx, hy, hxy⟩
  · rintro ⟨x, y, hx, hy, hxy⟩
    exact ⟨x, hx, y, hy, hxy⟩

/-- Where no two of three values are strings, all of them are compared as numbers. -/
theorem relate?_trans_of_numbers (hab : (a.isString && b.isString) = false)
    (hbc : (b.isString && c.isString) = false) (hac : (a.isString && c.isString) = false)
    (h : a.relate? b = some .lt) (h' : b.relate? c = some .lt) : a.relate? c = some .lt := by
  obtain ⟨x, y, hx, hy, hxy⟩ := (relate?_eq_lt_iff hab).mp h
  obtain ⟨y', z, hy', hz, hyz⟩ := (relate?_eq_lt_iff hbc).mp h'
  have heq : y = y' := Option.some.inj (hy.symm.trans hy')
  exact (relate?_eq_lt_iff hac).mpr ⟨x, z, hx, hz, Double.compare?_trans hxy (heq ▸ hyz)⟩

theorem relate?_trans_of_strings {s t u : String} (h : (string s).relate? (string t) = some .lt)
    (h' : (string t).relate? (string u) = some .lt) :
    (string s).relate? (string u) = some .lt := by
  have hst : compare s t = .lt := Option.some.inj h
  have htu : compare t u = .lt := Option.some.inj h'
  exact congrArg some (Std.TransCmp.lt_trans hst htu)

theorem exists_string (h : a.isString = true) : ∃ s, a = string s := by
  cases a with
  | string s => exact ⟨s, rfl⟩
  | _ => cases h

theorem countP_isString (a b c : Json) : [a, b, c].countP isString =
    a.isString.toNat + b.isString.toNat + c.isString.toNat := by
  rw [List.countP_cons, List.countP_cons, List.countP_cons, List.countP_nil]
  cases a.isString <;> cases b.isString <;> cases c.isString <;> rfl

/-- The order is transitive along three strings, and along values of which at most one is a string,
since no two of the latter are compared as texts. -/
theorem relate?_trans
    (hstrings : [a, b, c].countP isString ≤ 1 ∨ [a, b, c].countP isString = 3)
    (h : a.relate? b = some .lt) (h' : b.relate? c = some .lt) : a.relate? c = some .lt := by
  rw [countP_isString] at hstrings
  rcases hstrings with hfew | hall
  · have hpairs : ∀ p q r : Bool, p.toNat + q.toNat + r.toNat ≤ 1 →
        (p && q) = false ∧ (q && r) = false ∧ (p && r) = false := by decide
    obtain ⟨hab, hbc, hac⟩ := hpairs _ _ _ hfew
    exact relate?_trans_of_numbers hab hbc hac h h'
  · have hstring : ∀ p q r : Bool, p.toNat + q.toNat + r.toNat = 3 →
        p = true ∧ q = true ∧ r = true := by decide
    obtain ⟨ha, hb, hc⟩ := hstring _ _ _ hall
    obtain ⟨s, rfl⟩ := exists_string ha
    obtain ⟨t, rfl⟩ := exists_string hb
    obtain ⟨u, rfl⟩ := exists_string hc
    exact relate?_trans_of_strings h h'

end Json

/-! ## Outcomes -/

namespace Outcome

variable {o o' : Outcome}

/-- The order of two outcomes; an absent one has none with anything. -/
def relate? (o o' : Outcome) : Option Ordering := o.bind fun v => o'.bind v.relate?

theorem ordered_eq (orders : List Ordering) (o o' : Outcome) :
    o.ordered orders o' = (o.relate? o').any orders.contains := by
  cases o with
  | none => rfl
  | some v => cases o' <;> rfl

theorem relate?_swap (o o' : Outcome) : o'.relate? o = (o.relate? o').map Ordering.swap := by
  cases o with
  | none => cases o' <;> rfl
  | some v =>
    cases o' with
    | none => rfl
    | some w => exact Json.relate?_swap v w

theorem ordered_swap (orders : List Ordering) (o o' : Outcome) :
    o'.ordered (orders.map Ordering.swap) o = o.ordered orders o' := by
  rw [ordered_eq, ordered_eq, relate?_swap o o']
  cases o.relate? o' with
  | none => rfl
  | some order => simp [Option.any, List.contains_eq_mem, List.mem_map, Ordering.swap_inj]

theorem ordered_lt_iff : o.ordered [.lt] o' = true ↔ o.relate? o' = some .lt := by
  rw [ordered_eq]
  cases o.relate? o' with
  | none => simp
  | some order => cases order <;> simp

end Outcome

/-- Which of `<`, `<=`, `>` and `>=` hold in each of the relations. -/
def relations : Option Ordering → List Bool
  | none => [false, false, false, false]
  | some .lt => [true, true, false, false]
  | some .gt => [false, false, true, true]
  | some .eq => [false, true, false, true]

theorem relations_inj {r r' : Option Ordering} (h : relations r = relations r') : r = r' := by
  rcases r with _ | _ | _ | _ <;> rcases r' with _ | _ | _ | _ <;> first | rfl | cases h

/-! ## Expressions -/

namespace Expr

variable {a b c : Expr} {v root : Json}

theorem eval_relational (a b : Expr) (v root : Json) :
    [BinaryOp.less, .lessEqual, .greater, .greaterEqual].map
        (fun op => (binary op a b).eval v root) =
      (relations ((a.eval v root).relate? (b.eval v root))).map Outcome.ofBool := by
  simp only [List.map_cons, List.map_nil, eval, BinaryOp.apply, Outcome.ordered_eq]
  cases (a.eval v root).relate? (b.eval v root) with
  | none => rfl
  | some order => cases order <;> rfl

theorem eval_less_iff : (binary .less a b).eval v root = some (.bool true) ↔
    (a.eval v root).relate? (b.eval v root) = some .lt := by
  rw [← Outcome.ordered_lt_iff]
  simp [eval, BinaryOp.apply, Outcome.ofBool]

/-- Of any two expressions `<`, `<=`, `>` and `>=` hold as in exactly one of four relations: none of
them, the first two, the last two, or the two with an equals sign. Operands that change places turn
each operator around. Along three strings, and along values of which at most one is a string, `<` is
transitive. -/
theorem order_laws (v root : Json) :
    (∀ a b : Expr, ∃! r : Option Ordering,
      [BinaryOp.less, .lessEqual, .greater, .greaterEqual].map
        (fun op => (binary op a b).eval v root) = (relations r).map Outcome.ofBool) ∧
    (∀ a b : Expr, (binary .less a b).eval v root = (binary .greater b a).eval v root ∧
      (binary .lessEqual a b).eval v root = (binary .greaterEqual b a).eval v root) ∧
    ∀ (a b c : Expr) (x y z : Json),
      a.eval v root = some x → b.eval v root = some y → c.eval v root = some z →
      [x, y, z].countP Json.isString ≤ 1 ∨ [x, y, z].countP Json.isString = 3 →
      (binary .less a b).eval v root = some (.bool true) →
      (binary .less b c).eval v root = some (.bool true) →
      (binary .less a c).eval v root = some (.bool true) := by
  refine ⟨fun a b => ?_, fun a b => ⟨?_, ?_⟩, ?_⟩
  · refine ⟨_, eval_relational a b v root, fun r hr => ?_⟩
    have hbool : Function.Injective Outcome.ofBool := fun p q hpq => by cases hpq; rfl
    have hsame := hr.symm.trans (eval_relational a b v root)
    exact relations_inj (List.map_injective_iff.mpr hbool hsame)
  · exact congrArg Outcome.ofBool (Outcome.ordered_swap [.lt] _ _).symm
  · exact congrArg Outcome.ofBool (Outcome.ordered_swap [.lt, .eq] _ _).symm
  · intro a b c x y z hx hy hz hstrings hab hbc
    rw [eval_less_iff, hx, hy] at hab
    rw [eval_less_iff, hy, hz] at hbc
    rw [eval_less_iff, hx, hz]
    exact Json.relate?_trans hstrings hab hbc

/-- False, a text that reads as one, and two. -/
theorem order_laws_sample :
    let a : Expr := .literal (.bool false)
    let b : Expr := .literal (.string " 1.0 ")
    let c : Expr := .current
    let two : Json := .number (.int 2)
    (binary .less a b).eval two .null = some (.bool true) ∧
    (binary .greater c b).eval two .null = some (.bool true) ∧
    [Json.bool false, .string " 1.0 ", two].countP Json.isString ≤ 1 ∧
    (binary .less a c).eval two .null = some (.bool true) := by
  intro a b c two
  obtain ⟨_, hswap, htrans⟩ := order_laws two .null
  have hab : (binary .less a b).eval two .null = some (.bool true) :=
    eval_less_iff.mpr (by decide +kernel)
  have hbc : (binary .less b c).eval two .null = some (.bool true) :=
    eval_less_iff.mpr (by decide +kernel)
  have hcount : [Json.bool false, .string " 1.0 ", two].countP Json.isString ≤ 1 := by decide
  exact ⟨hab, (hswap b c).1 ▸ hbc, hcount,
    htrans a b c _ _ _ rfl rfl rfl (.inl hcount) hab hbc⟩

/-- Two texts and a number can go round in a circle: the texts are apart by their first characters,
and each of them is apart from the number by what it reads as. -/
example : (Json.string "10").relate? (.string "8") = some .lt ∧
    (Json.string "8").relate? (.number (.int 9)) = some .lt ∧
    (Json.number (.int 9)).relate? (.string "10") = some .lt := by
  decide +kernel

end Expr
end PathQuery
