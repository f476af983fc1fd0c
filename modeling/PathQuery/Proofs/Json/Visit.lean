import Mathlib.Logic.Relation
import PathQuery.Proofs.Json.Preorder

/-! The loop that visits a value and every container in it.
The loop keeps a stack of the values still to visit. A round takes the top value from the stack,
visits it and puts its containers on the stack, the first one on top. What has been visited and, after
it, what the stack leads to in pre-order is the same list in every round, and the stack holds fewer
values in all after each round. So the loop ends, and then this list is what has been visited. -/
namespace PathQuery.Json

theorem sizeItems_reverse (vs : List Json) : sizeItems vs.reverse = sizeItems vs := by
  induction vs with
  | nil => rfl
  | cons v vs ih =>
    rw [List.reverse_cons, sizeItems_append, ih]
    simp only [sizeItems]
    omega

/-- The values visited so far, and the stack of those still to visit, with its top at the end. -/
structure Visit where
  visited : List Json
  stack : List Json

namespace Visit

/-- Before the first round the value is alone on the stack. -/
def start (v : Json) : Visit := ⟨[], [v]⟩

/-- The state after one more round; where nothing is on the stack the loop has ended. What the round
puts on the stack is turned round there. -/
def round? (s : Visit) : Option Visit :=
  s.stack.getLast?.map fun v =>
    let rest := s.stack.dropLast
    let longer := rest ++ v.containers
    ⟨s.visited ++ [v], longer.take rest.length ++ (longer.drop rest.length).reverse⟩

/-- Rounds, one after the other, lead from one state to another. -/
abbrev Leads : Visit → Visit → Prop := Relation.ReflTransGen fun s s' => s.round? = some s'

/-- What has been visited, and then what the stack leads to from its top downwards. -/
def outlook (s : Visit) : List Json := s.visited ++ s.stack.reverse.flatMap preorder

variable {s s' : Visit}

/-! ## One round -/

theorem round?_append (visited rest : List Json) (v : Json) :
    round? ⟨visited, rest ++ [v]⟩ = some ⟨visited ++ [v], rest ++ v.containers.reverse⟩ := by
  simp [round?]

theorem round?_eq_none (h : s.round? = none) : ∃ visited, s = ⟨visited, []⟩ := by
  obtain ⟨visited, stack⟩ := s
  rcases List.eq_nil_or_concat' stack with rfl | ⟨rest, v, rfl⟩
  · exact ⟨visited, rfl⟩
  · rw [round?_append] at h
    cases h

theorem round?_eq_some (h : s.round? = some s') :
    ∃ rest v, s.stack = rest ++ [v] ∧
      s' = ⟨s.visited ++ [v], rest ++ v.containers.reverse⟩ := by
  obtain ⟨visited, stack⟩ := s
  rcases List.eq_nil_or_concat' stack with rfl | ⟨rest, v, rfl⟩
  · cases h
  · rw [round?_append] at h
    exact ⟨rest, v, rfl, (Option.some.inj h).symm⟩

/-- A round changes nothing about what will have been visited in the end. -/
theorem outlook_round (h : s.round? = some s') : s'.outlook = s.outlook := by
  obtain ⟨rest, v, hstack, rfl⟩ := round?_eq_some h
  calc outlook ⟨s.visited ++ [v], rest ++ v.containers.reverse⟩
      = s.visited ++ ((v :: v.containers.flatMap preorder) ++ rest.reverse.flatMap preorder) := by
        simp [outlook]
    _ = s.visited ++ (v.preorder ++ rest.reverse.flatMap preorder) := by rw [← preorder_eq]
    _ = s.outlook := by simp [outlook, hstack]

/-- What a round puts on the stack holds fewer values than what it takes from there. -/
theorem size_round (h : s.round? = some s') : sizeItems s'.stack < sizeItems s.stack := by
  obtain ⟨rest, v, hstack, rfl⟩ := round?_eq_some h
  have hfilter : sizeItems v.containers ≤ sizeItems v.children := sizeItems_filter_le _ _
  have hchildren : sizeItems v.children < v.size := sizeItems_children_lt v
  simp only [hstack, sizeItems_append, sizeItems_reverse, sizeItems]
  omega

/-! ## All rounds -/

theorem outlook_leads (h : Leads s s') : s'.outlook = s.outlook := by
  induction h with
  | refl => rfl
  | tail _ hround ih => exact (outlook_round hround).trans ih

theorem exists_leads_nil (s : Visit) : ∃ visited, Leads s ⟨visited, []⟩ := by
  cases hround : s.round? with
  | none =>
    obtain ⟨visited, rfl⟩ := round?_eq_none hround
    exact ⟨visited, .refl⟩
  | some s' =>
    obtain ⟨visited, h⟩ := exists_leads_nil s'
    exact ⟨visited, .head hround h⟩
termination_by sizeItems s.stack
decreasing_by exact size_round hround

theorem leads_preorder (v : Json) : Leads (start v) ⟨v.preorder, []⟩ := by
  obtain ⟨visited, h⟩ := exists_leads_nil (start v)
  have houtlook : visited = v.preorder := by simpa [outlook, start] using outlook_leads h
  rwa [houtlook] at h

end Visit

/-! ## Positions -/

/-- A value and the arrays and objects in it by their positions: each of these positions once, in the
order of positions, and nothing behind what it contains. -/
structure ListedAt (v : Json) (positions : List Position) (values : List Json) : Prop where
  once : positions.Nodup
  in_order : positions.Pairwise (· < ·)
  mem_iff : ∀ p, p ∈ positions ↔ p = [] ∨ (∃ items, v.valueAt? p = some (array items)) ∨
    ∃ members, v.valueAt? p = some (object members)
  outside_first : ∀ (i j : Nat) (hi : i < positions.length) (hj : j < positions.length),
    positions[i] <+: positions[j] → i ≤ j
  values_eq : positions.map v.valueAt? = values.map some

theorem not_lt_of_isPrefix {p q : Position} (h : p <+: q) : ¬ q < p := by
  induction p generalizing q with
  | nil => exact List.not_lt_nil q
  | cons i p ih =>
    obtain ⟨rest, rfl⟩ := h
    rw [List.cons_append, List.cons_lt_cons_iff]
    rintro (hlt | ⟨_, hlt⟩)
    · exact Nat.lt_irrefl i hlt
    · exact ih (List.prefix_append p rest) hlt

theorem listedAt_openings (v : Json) : v.ListedAt v.openings v.preorder where
  once := v.pairwise_openings.imp fun h => by
    rintro rfl
    exact List.lt_irrefl _ h
  in_order := v.pairwise_openings
  mem_iff p := by
    rw [mem_openings]
    refine or_congr_right ?_
    constructor
    · rintro ⟨c, hat, hc⟩
      rcases isContainer_iff.mp hc with ⟨items, rfl⟩ | ⟨members, rfl⟩
      · exact .inl ⟨items, hat⟩
      · exact .inr ⟨members, hat⟩
    · rintro (⟨items, hat⟩ | ⟨members, hat⟩)
      · exact ⟨array items, hat, rfl⟩
      · exact ⟨object members, hat, rfl⟩
  outside_first i j hi hj hprefix := by
    by_contra hlt
    have hbefore : v.openings[j] < v.openings[i] :=
      List.pairwise_iff_getElem.mp v.pairwise_openings j i hj hi (Nat.lt_of_not_le hlt)
    exact not_lt_of_isPrefix hprefix hbefore
  values_eq := map_valueAt?_openings v

/-- The loop over a stack that starts with a value ends, and has then visited what the recursive
pre-order lists: the value and, for each array and object among its children, what this one lists. The
descendants are the same list. It has the value and every array or object in it, each position once,
and every container before all that is inside it. -/
theorem descendants_by_rounds :
    (∀ v : Json, v.preorder = v :: (v.children.filter isContainer).flatMap preorder) ∧
    ∀ v : Json, Visit.Leads (.start v) ⟨v.preorder, []⟩ ∧ Visit.round? ⟨v.preorder, []⟩ = none ∧
      v.descendants = v.preorder ∧ ∃ positions, v.ListedAt positions v.descendants := by
  refine ⟨preorder_eq, fun v => ⟨Visit.leads_preorder v, rfl, descendants_eq_preorder v, ?_⟩⟩
  rw [descendants_eq_preorder]
  exact ⟨v.openings, listedAt_openings v⟩

end PathQuery.Json
