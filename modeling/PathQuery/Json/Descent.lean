import PathQuery.Json.Basic

/-! The value together with every array and object inside it.
The walk keeps a list of the containers still to visit; it ends because the values on that list hold
fewer and fewer values in all. -/
namespace PathQuery.Json

mutual

/-- How many values a value holds, itself included. -/
def size : Json → Nat
  | .array items => sizeItems items + 1
  | .object members => sizeMembers members + 1
  | _ => 1

/-- How many values are held by some items. -/
def sizeItems : List Json → Nat
  | [] => 0
  | v :: vs => size v + sizeItems vs

/-- How many values are held by some members. -/
def sizeMembers : List (String × Json) → Nat
  | [] => 0
  | (_, v) :: ms => size v + sizeMembers ms

end

theorem sizeItems_append (vs ws : List Json) :
    sizeItems (vs ++ ws) = sizeItems vs + sizeItems ws := by
  induction vs with
  | nil => simp [sizeItems]
  | cons v vs ih => simp [sizeItems, ih, Nat.add_assoc]

theorem sizeItems_filter_le (p : Json → Bool) (vs : List Json) :
    sizeItems (vs.filter p) ≤ sizeItems vs := by
  induction vs with
  | nil => simp
  | cons v vs ih =>
    rw [List.filter_cons]
    split <;> simp only [sizeItems] <;> omega

theorem sizeItems_map_snd (ms : List (String × Json)) :
    sizeItems (ms.map Prod.snd) = sizeMembers ms := by
  induction ms with
  | nil => simp [sizeItems, sizeMembers]
  | cons m ms ih => simp [sizeItems, sizeMembers, ih]

theorem sizeItems_children_lt (v : Json) : sizeItems v.children < v.size := by
  cases v <;> simp [children, size, sizeItems, sizeItems_map_snd]

/-- The children that hold values themselves. -/
def containers (v : Json) : List Json := v.children.filter isContainer

/-- Visits the values of a list and every container below them, each container before what it
holds. -/
def walk : List Json → List Json
  | [] => []
  | v :: rest => v :: walk (v.containers ++ rest)
termination_by pending => sizeItems pending
decreasing_by
  have h := sizeItems_filter_le isContainer v.children
  have := sizeItems_children_lt v
  simp only [containers, sizeItems_append, sizeItems]
  omega

/-- The value itself and every array and object below it, in the order in which they open. -/
def descendants (v : Json) : List Json := walk [v]

end PathQuery.Json
