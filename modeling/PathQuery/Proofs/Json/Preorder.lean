import Mathlib.Data.List.FinRange
import PathQuery.Proofs.Json.Position

/-! The containers of a value in pre-order.
The walk through a value visits exactly what the recursive definition lists. The positions at which
this stands are those of the value itself and of every container in it, each once and in order. -/
namespace PathQuery.Json

/-- The value, and after it what its containers list, one after the other. -/
def preorder (v : Json) : List Json := v :: v.containers.attach.flatMap fun c => preorder c.val
termination_by v.size
decreasing_by exact size_lt_of_mem_children (List.mem_of_mem_filter c.property)

theorem preorder_eq (v : Json) : v.preorder = v :: v.containers.flatMap preorder := by
  rw [preorder, List.flatMap_subtype fun _ _ => rfl, List.unattach_attach]

/-- The positions of the value itself and of the containers in it. -/
def openings (v : Json) : List Position :=
  [] :: (List.finRange v.children.length).flatMap fun i =>
    if (v.children.get i).isContainer then (openings (v.children.get i)).map (i.val :: ·) else []
termination_by v.size
decreasing_by exact size_lt_of_mem_children (List.get_mem _ _)

/-! ## The walk -/

theorem walk_eq_flatMap_preorder (pending : List Json) : walk pending = pending.flatMap preorder := by
  fun_induction walk pending with
  | case1 => rfl
  | case2 v rest ih =>
    rw [ih, List.flatMap_append, List.flatMap_cons, preorder_eq]
    rfl

theorem descendants_eq_preorder (v : Json) : v.descendants = v.preorder := by
  simp [descendants, walk_eq_flatMap_preorder]

/-! ## Values -/

theorem flatMap_containers {α : Type} (v : Json) (f : Json → List α) :
    v.containers.flatMap f = (List.finRange v.children.length).flatMap fun i =>
      if (v.children.get i).isContainer then f (v.children.get i) else [] := by
  have hfilter : ∀ vs : List Json, (vs.filter isContainer).flatMap f =
      vs.flatMap fun c => if c.isContainer then f c else [] := by
    intro vs
    induction vs with
    | nil => rfl
    | cons c vs ih =>
      rw [List.filter_cons, List.flatMap_cons, ← ih]
      split <;> rfl
  rw [containers, hfilter]
  conv_lhs => rw [← List.map_get_finRange v.children, List.flatMap_map]

theorem valueAt?_cons_get (v : Json) (i : Fin v.children.length) (p : Position) :
    v.valueAt? (i.val :: p) = (v.children.get i).valueAt? p := by
  simp [valueAt?_cons]

/-- The values at the openings are those in pre-order. -/
theorem map_valueAt?_openings (v : Json) :
    v.openings.map v.valueAt? = v.preorder.map some := by
  induction v using inductionOnChildren with
  | step v ih =>
    rw [openings, preorder_eq, List.map_cons, List.map_cons, List.map_flatMap, List.map_flatMap,
      flatMap_containers]
    congr 1
    refine List.flatMap_congr fun i _ => ?_
    split
    · rw [List.map_map, ← ih (v.children.get i) (List.get_mem _ _)]
      exact List.map_congr_left fun p _ => valueAt?_cons_get v i p
    · rfl

/-! ## Positions -/

theorem mem_openings {v : Json} {p : Position} :
    p ∈ v.openings ↔ p = [] ∨ ∃ c, v.valueAt? p = some c ∧ c.isContainer = true := by
  induction v using inductionOnChildren generalizing p with
  | step v ih =>
    rw [openings, List.mem_cons]
    refine or_congr_right' fun hp => ?_
    obtain ⟨k, q, rfl⟩ := List.exists_cons_of_ne_nil hp
    simp only [List.mem_flatMap, List.mem_finRange, true_and]
    constructor
    · rintro ⟨i, hi⟩
      split at hi
      next hc =>
        obtain ⟨_, hq, he⟩ := List.mem_map.mp hi
        cases he
        rw [valueAt?_cons_get]
        rcases (ih _ (List.get_mem _ _)).mp hq with rfl | h
        · exact ⟨_, rfl, hc⟩
        · exact h
      next => cases hi
    · rintro ⟨c, hat, hc⟩
      obtain ⟨_, hd, _⟩ := Option.bind_eq_some_iff.mp (valueAt?_cons v k q ▸ hat)
      obtain ⟨hk, _⟩ := List.getElem?_eq_some_iff.mp hd
      rw [valueAt?_cons_get v ⟨k, hk⟩] at hat
      have hcontainer : (v.children.get ⟨k, hk⟩).isContainer = true := by
        cases q with
        | nil =>
          cases hat
          exact hc
        | cons j q => exact isContainer_of_valueAt?_cons hat
      refine ⟨⟨k, hk⟩, ?_⟩
      rw [if_pos hcontainer, List.mem_map]
      exact ⟨q, (ih _ (List.get_mem _ _)).mpr (.inr ⟨c, hat, hc⟩), rfl⟩

/-- The openings are in order, so none of them is there twice. -/
theorem pairwise_openings (v : Json) : v.openings.Pairwise (· < ·) := by
  induction v using inductionOnChildren with
  | step v ih =>
    rw [openings, List.pairwise_cons, List.pairwise_flatMap]
    -- the value itself against all others, two openings in one child, and two in different children
    refine ⟨fun p hp => ?_, fun i _ => ?_, ?_⟩
    · obtain ⟨i, _, hp⟩ := List.mem_flatMap.mp hp
      split at hp
      · obtain ⟨q, _, rfl⟩ := List.mem_map.mp hp
        exact List.nil_lt_cons _ _
      · cases hp
    · split
      · refine List.pairwise_map.mpr ((ih _ (List.get_mem _ _)).imp fun h => ?_)
        exact List.cons_lt_cons_iff.mpr (.inr ⟨rfl, h⟩)
      · exact .nil
    · refine (List.pairwise_lt_finRange _).imp fun hij p hp q hq => ?_
      split at hp
      · split at hq
        · obtain ⟨_, _, rfl⟩ := List.mem_map.mp hp
          obtain ⟨_, _, rfl⟩ := List.mem_map.mp hq
          exact List.cons_lt_cons_iff.mpr (.inl hij)
        · cases hq
      · cases hp

end PathQuery.Json
