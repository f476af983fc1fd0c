import PathQuery.Proofs.Double.Nearest
import PathQuery.Step.Execution

/-! Integers in comparisons.
Numbers are compared by the doubles nearest to them. For stored integers this is the comparison of the
integers themselves as long as doubles keep the two apart, which they do if one of the two lies below
`2^53` in magnitude; from there on different integers begin to share a double. -/
namespace PathQuery

open Double (TellsApart)

variable {i j : Int} {js : List Int}

/-! ## Values -/

namespace Json

theorem strictEq_of_tellsApart (h : TellsApart i j) :
    (number (.int i)).strictEq (number (.int j)) = decide (i = j) :=
  Double.eq_ofInt_of_tellsApart h

theorem tellsApart_of_strictEq (h : (number (.int i)).strictEq (number (.int j)) = decide (i = j)) :
    TellsApart i j := by
  intro heq
  have hij : decide (i = j) = true := h.symm.trans heq
  exact of_decide_eq_true hij

theorem looseEq_of_tellsApart (h : TellsApart i j) :
    (number (.int i)).looseEq (number (.int j)) = decide (i = j) :=
  Double.eq_ofInt_of_tellsApart h

theorem relate?_of_tellsApart (h : TellsApart i j) :
    (number (.int i)).relate? (number (.int j)) = some (compare i j) :=
  Double.compare?_ofInt_of_tellsApart h

theorem any_strictEq_integers (h : ∀ j ∈ js, TellsApart j i) :
    (js.map fun j => number (.int j)).any (fun w => w.strictEq (number (.int i))) =
      js.contains i := by
  induction js with
  | nil => rfl
  | cons j js ih =>
    obtain ⟨hj, hrest⟩ := List.forall_mem_cons.mp h
    rw [List.map_cons, List.any_cons, ih hrest, strictEq_of_tellsApart hj, List.contains_cons]
    congr 1
    exact Bool.eq_iff_iff.mpr (by rw [decide_eq_true_iff, beq_iff_eq, eq_comm])

theorem indexOf?_integers (h : ∀ j ∈ js, TellsApart j i) :
    indexOf? (number (.int i)) (js.map fun j => number (.int j)) = js.findIdx? fun j => j = i := by
  induction js with
  | nil => rfl
  | cons j js ih =>
    obtain ⟨hj, hrest⟩ := List.forall_mem_cons.mp h
    rw [indexOf?, List.map_cons, List.findIdx?_cons, List.findIdx?_cons, ← ih hrest,
      strictEq_of_tellsApart hj]
    rfl

end Json

/-! ## Filters -/

theorem Outcome.truthy_ofBool (p : Bool) : (ofBool p).truthy = p := rfl

/-- A filter for equal integers keeps what has the same one on both sides. -/
theorem Step.mem_select_filter_integers {a b : Expr} {root w : Json} {found : List Json}
    (h : ∀ w ∈ found.flatMap Json.candidates, ∃ i j, a.eval w root = some (.number (.int i)) ∧
      b.eval w root = some (.number (.int j)) ∧ TellsApart i j) :
    w ∈ (filter (.binary .strictEqual a b)).select root found ↔
      w ∈ found.flatMap Json.candidates ∧ a.eval w root = b.eval w root := by
  rw [select, List.mem_filter]
  refine and_congr_right fun hw => ?_
  obtain ⟨i, j, ha, hb, hij⟩ := h w hw
  rw [Expr.eval, ha, hb, BinaryOp.apply, Outcome.holds, Json.strictEq_of_tellsApart hij,
    Outcome.truthy_ofBool, decide_eq_true_iff]
  simp

/-! ## Expressions -/

namespace Expr

variable {a b : Expr} {v root : Json}

theorem eval_integers (ha : a.eval v root = some (.number (.int i)))
    (hb : b.eval v root = some (.number (.int j))) (h : TellsApart i j) :
    (binary .strictEqual a b).eval v root = some (.bool (decide (i = j))) ∧
    (binary .equal a b).eval v root = some (.bool (decide (i = j))) ∧
    (binary .less a b).eval v root = some (.bool (decide (i < j))) := by
  refine ⟨?_, ?_, ?_⟩
  · rw [eval, ha, hb, BinaryOp.apply, Outcome.holds, Json.strictEq_of_tellsApart h,
      Outcome.ofBool]
  · rw [eval, ha, hb, BinaryOp.apply, Outcome.holds, Json.looseEq_of_tellsApart h,
      Outcome.ofBool]
  · have hless : (compare i j == .lt) = decide (i < j) :=
      Bool.eq_iff_iff.mpr (by rw [beq_iff_eq, Int.compare_eq_lt, decide_eq_true_iff])
    rw [eval, ha, hb, BinaryOp.apply, Outcome.ordered, Outcome.holds,
      Json.relate?_of_tellsApart h, Option.any_some, List.contains_cons, List.contains_nil,
      Bool.or_false, hless, Outcome.ofBool]

theorem tellsApart_of_eval (ha : a.eval v root = some (.number (.int i)))
    (hb : b.eval v root = some (.number (.int j)))
    (h : (binary .strictEqual a b).eval v root = some (.bool (decide (i = j)))) :
    TellsApart i j := by
  rw [eval, ha, hb, BinaryOp.apply, Outcome.holds, Outcome.ofBool] at h
  exact Json.tellsApart_of_strictEq (Json.bool.inj (Option.some.inj h))

/-- Stored integers are compared as integers exactly where doubles tell them apart, for which it is
enough that one of them is below `2^53` in magnitude. There methods that search an array and filters
for equal integers find the same integers only. -/
theorem integers_by_value (root : Json) :
    (∀ i j : Int, i.natAbs < 9007199254740992 ∨ j.natAbs < 9007199254740992 → TellsApart i j) ∧
    (∀ (a b : Expr) (v : Json) (i j : Int), a.eval v root = some (.number (.int i)) →
      b.eval v root = some (.number (.int j)) →
      (TellsApart i j ↔
        (binary .strictEqual a b).eval v root = some (.bool (decide (i = j))) ∧
        (binary .equal a b).eval v root = some (.bool (decide (i = j))) ∧
        (binary .less a b).eval v root = some (.bool (decide (i < j))))) ∧
    (∀ (js : List Int) (i : Int), (∀ j ∈ js, TellsApart j i) →
      let items : Json := .array (js.map fun j => .number (.int j))
      Method.includes.call items (some (.number (.int i))) = some (.bool (js.contains i)) ∧
      Method.indexOf.call items (some (.number (.int i))) =
        some (.ofOffset (js.findIdx? fun j => j = i))) ∧
    ∀ (a b : Expr) (found : List Json),
      (∀ w ∈ found.flatMap Json.candidates, ∃ i j, a.eval w root = some (.number (.int i)) ∧
        b.eval w root = some (.number (.int j)) ∧ TellsApart i j) →
      ∀ w, w ∈ (Step.filter (.binary .strictEqual a b)).select root found ↔
        w ∈ found.flatMap Json.candidates ∧ a.eval w root = b.eval w root := by
  refine ⟨fun i j => Double.tellsApart_of_lt, ?_, ?_, ?_⟩
  · intro a b v i j ha hb
    exact ⟨eval_integers ha hb, fun h => tellsApart_of_eval ha hb h.1⟩
  · intro js i h
    exact ⟨congrArg Outcome.ofBool (Json.any_strictEq_integers h),
      congrArg (fun o => some (Json.ofOffset o)) (Json.indexOf?_integers h)⟩
  · intro a b found h w
    exact Step.mem_select_filter_integers h

/-- The greatest integer below `2^53` among larger ones. -/
theorem integers_by_value_sample :
    let js : List Int := [9007199254740993, 9007199254740992, 9007199254740991]
    let items : Json := .array (js.map fun j => .number (.int j))
    let root : Json := .number (.int 9007199254740991)
    (binary .less .root .current).eval (.number (.int 9007199254740993)) root =
      some (.bool true) ∧
    Method.indexOf.call items (some root) = some (.number (.int 2)) ∧
    ∀ w, w ∈ (Step.filter (.binary .strictEqual .current .root)).select root [items] ↔
      w ∈ [items].flatMap Json.candidates ∧ some w = some root := by
  intro js items root
  obtain ⟨hbelow, hvalues, hmethods, hfilter⟩ := integers_by_value root
  have happart : ∀ j, TellsApart j 9007199254740991 := fun j => hbelow j _ (.inr (by decide))
  refine ⟨?_, (hmethods js _ fun j _ => happart j).2, ?_⟩
  · have hfirst : TellsApart 9007199254740991 9007199254740993 := hbelow _ _ (.inl (by decide))
    exact ((hvalues .root .current _ _ _ rfl rfl).mp hfirst).2.2
  · refine hfilter .current .root [items] fun w hw => ?_
    rw [List.flatMap_singleton] at hw
    obtain ⟨j, _, rfl⟩ := List.mem_map.mp hw
    exact ⟨j, _, rfl, rfl, happart j⟩

/-- The first integer that is no double shares its double with the one before it, so that a filter for
the one keeps the other. -/
theorem filter_keeps_other_integer :
    let item : Json := .object [("id", .number (.int 9007199254740992))]
    let root : Json := .object [("id", .number (.int 9007199254740993)), ("items", .array [item])]
    let sameId : Expr := .binary .strictEqual (.property .current "id") (.property .root "id")
    sameId.eval item root = some (.bool true) ∧
    Step.execute [.root, .member "items", .filter sameId] root = .array [item] := by
  intro item root sameId
  have hequal : sameId.eval item root = some (.bool true) := by
    have hdouble : (Double.ofInt 9007199254740992).eq (Double.ofInt 9007199254740993) = true := by
      decide +kernel
    exact congrArg Outcome.ofBool hdouble
  have hkept : [item].filter (fun v => (sameId.eval v root).truthy) = [item] := by
    rw [List.filter_cons_of_pos (by rw [hequal]; rfl), List.filter_nil]
  exact ⟨hequal, congrArg Json.array hkept⟩

end Expr
end PathQuery
