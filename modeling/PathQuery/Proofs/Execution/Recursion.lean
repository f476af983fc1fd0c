import PathQuery.Proofs.Json.Preorder
import PathQuery.Step.Execution

/-! What a step finds behind `..`.
A recursion lists the containers of the document, and the step after it takes out of each what it
holds. Together they find every value inside the document, or every member of a name, once and in
order. -/
namespace PathQuery

/-- A position inside a document: a child, by its number, of the container at a position. -/
structure Place where
  container : Json.Position
  index : Nat

namespace Place

def position (q : Place) : Json.Position := q.container ++ [q.index]

/-- The container comes earlier in pre-order, or it is the same and the child comes earlier. -/
def Before (q r : Place) : Prop :=
  q.container < r.container ∨ q.container = r.container ∧ q.index < r.index

theorem Before.ne {q r : Place} (h : Before q r) : q ≠ r := by
  rintro rfl
  rcases h with h | ⟨_, h⟩
  · exact List.lt_irrefl _ h
  · exact Nat.lt_irrefl _ h

end Place

namespace Json

/-- The key of the member at a place, if the container is an object. -/
def keyAt? (d : Json) (q : Place) : Option String :=
  match d.valueAt? q.container with
  | some (.object members) => members[q.index]?.map Prod.fst
  | _ => none

/-- Values in the order of the places that they stand at: the chosen places of a document, each of
them once. -/
def Listed (d : Json) (chosen : Place → Prop) (values : List Json) : Prop :=
  ∃ places : List Place, places.Nodup ∧ places.Pairwise Place.Before ∧
    (∀ q, q ∈ places ↔ chosen q) ∧
    places.map (fun q => d.valueAt? q.position) = values.map some

theorem Listed.congr {d : Json} {chosen chosen' : Place → Prop} {values : List Json}
    (h : d.Listed chosen values) (hq : ∀ q, chosen q ↔ chosen' q) : d.Listed chosen' values := by
  obtain ⟨places, hnodup, hsorted, hmem, hvalues⟩ := h
  exact ⟨places, hnodup, hsorted, fun q => (hmem q).trans (hq q), hvalues⟩

variable {d c : Json} {p : Position} {name : String}

theorem valueAt?_position (h : d.valueAt? p = some c) (i : Nat) :
    d.valueAt? (Place.position ⟨p, i⟩) = c.children[i]? := by
  rw [Place.position, valueAt?_append, h, Option.bind_some, valueAt?_singleton]

theorem exists_of_mem_openings (h : p ∈ d.openings) : ∃ c, d.valueAt? p = some c := by
  rcases mem_openings.mp h with rfl | ⟨c, hc, _⟩
  · exact ⟨d, rfl⟩
  · exact ⟨c, hc⟩

/-! ## Children of all containers -/

/-- The places in the container at a position that a choice of children names. -/
def placesIn (d : Json) (choice : Json → List Nat) (p : Position) : List Place :=
  ((d.valueAt? p).elim [] choice).map fun i => ⟨p, i⟩

variable {choice : Json → List Nat}

theorem placesIn_eq (h : d.valueAt? p = some c) :
    d.placesIn choice p = (choice c).map fun i => ⟨p, i⟩ := by
  rw [placesIn, h, Option.elim]

theorem pairwise_places (hsorted : ∀ c, (choice c).Pairwise (· < ·)) (d : Json) :
    (d.openings.flatMap (d.placesIn choice)).Pairwise Place.Before := by
  rw [List.pairwise_flatMap]
  constructor
  · intro p hp
    obtain ⟨c, hc⟩ := exists_of_mem_openings hp
    rw [placesIn_eq hc]
    exact List.pairwise_map.mpr ((hsorted c).imp fun h => .inr ⟨rfl, h⟩)
  · refine d.pairwise_openings.imp fun hlt x hx y hy => ?_
    obtain ⟨_, _, rfl⟩ := List.mem_map.mp hx
    obtain ⟨_, _, rfl⟩ := List.mem_map.mp hy
    exact .inl hlt

theorem mem_places (hchild : ∀ c, ∀ i ∈ choice c, i < c.children.length) (q : Place) :
    q ∈ d.openings.flatMap (d.placesIn choice) ↔
      ∃ c, d.valueAt? q.container = some c ∧ q.index ∈ choice c := by
  rw [List.mem_flatMap]
  constructor
  · rintro ⟨p, hp, hq⟩
    obtain ⟨c, hc⟩ := exists_of_mem_openings hp
    rw [placesIn_eq hc] at hq
    obtain ⟨i, hi, rfl⟩ := List.mem_map.mp hq
    exact ⟨c, hc, hi⟩
  · rintro ⟨c, hc, hi⟩
    have hcontainer : c.isContainer = true :=
      isContainer_of_mem_children (List.getElem_mem (hchild c q.index hi))
    refine ⟨q.container, mem_openings.mpr (.inr ⟨c, hc, hcontainer⟩), ?_⟩
    rw [placesIn_eq hc]
    exact List.mem_map.mpr ⟨q.index, hi, rfl⟩

theorem map_valueAt?_places {take : Json → List Json}
    (htake : ∀ c : Json, (choice c).map (fun i => c.children[i]?) = (take c).map some) (d : Json) :
    (d.openings.flatMap (d.placesIn choice)).map (fun q => d.valueAt? q.position) =
      (d.descendants.flatMap take).map some := by
  let values (o : Option Json) : List (Option Json) := o.elim [] fun c => (take c).map some
  have hplaces : ∀ p ∈ d.openings,
      (d.placesIn choice p).map (fun q => d.valueAt? q.position) = values (d.valueAt? p) := by
    intro p hp
    obtain ⟨c, hc⟩ := exists_of_mem_openings hp
    rw [placesIn_eq hc, hc, List.map_map]
    exact (List.map_congr_left fun i _ => valueAt?_position hc i).trans (htake c)
  calc (d.openings.flatMap (d.placesIn choice)).map (fun q => d.valueAt? q.position)
      = d.openings.flatMap fun p => values (d.valueAt? p) := by
        rw [List.map_flatMap]
        exact List.flatMap_congr hplaces
    _ = (d.descendants.map some).flatMap values := by
        rw [descendants_eq_preorder, ← map_valueAt?_openings, List.flatMap_map]
    _ = (d.descendants.flatMap take).map some := by
        rw [List.flatMap_map, List.map_flatMap]
        rfl

/-- A step that takes children out of every container lists them by their places. -/
theorem listed_descendants {take : Json → List Json}
    (htake : ∀ c : Json, (choice c).map (fun i => c.children[i]?) = (take c).map some)
    (hsorted : ∀ c, (choice c).Pairwise (· < ·)) (d : Json) :
    d.Listed (fun q => ∃ c, d.valueAt? q.container = some c ∧ q.index ∈ choice c)
      (d.descendants.flatMap take) := by
  -- a chosen number without a child would be an absent value among those that are taken
  have hchild : ∀ c, ∀ i ∈ choice c, i < c.children.length := by
    intro c i hi
    have hmem : c.children[i]? ∈ (take c).map some := htake c ▸ List.mem_map_of_mem hi
    obtain ⟨w, _, hw⟩ := List.mem_map.mp hmem
    exact (List.getElem?_eq_some_iff.mp hw.symm).1
  have hbefore := pairwise_places hsorted d
  exact ⟨d.openings.flatMap (d.placesIn choice), hbefore.imp Place.Before.ne, hbefore,
    mem_places hchild, map_valueAt?_places htake d⟩

theorem map_children_range (c : Json) :
    (List.range c.children.length).map (fun i => c.children[i]?) = c.children.map some := by
  apply List.ext_getElem
  · simp
  · intro i hi _
    have : i < c.children.length := by simpa using hi
    simp [this]

theorem isSome_valueAt?_position (q : Place) :
    (∃ c, d.valueAt? q.container = some c ∧ q.index ∈ List.range c.children.length) ↔
      (d.valueAt? q.position).isSome = true := by
  cases hc : d.valueAt? q.container with
  | none => simp [Place.position, valueAt?_append, hc]
  | some c => simp [valueAt?_position hc]

/-! ## Members of a name -/

/-- The number of the member called `name` in an object. -/
def memberIndex (name : String) : Json → List Nat
  | .object members => (members.findIdx? fun m => m.1 = name).toList
  | _ => []

theorem lookup_eq_findIdx? (members : List (String × Json)) :
    lookup name members =
      (members.findIdx? fun m => m.1 = name).bind fun i => (members.map Prod.snd)[i]? := by
  induction members with
  | nil => rfl
  | cons m members ih =>
    obtain ⟨k, v⟩ := m
    rw [lookup, List.findIdx?_cons, ih]
    by_cases hk : k = name <;> simp [hk, Option.bind_map]

/-- A property that is neither a length nor a position is a member of an object. -/
theorem map_children_memberIndex (hlength : name ≠ "length") (hposition : position? name = none)
    (c : Json) :
    (memberIndex name c).map (fun i => c.children[i]?) = (c.property name).toList.map some := by
  cases c with
  | object members =>
    rw [memberIndex, property, lookup_eq_findIdx?, children]
    cases hf : members.findIdx? fun m => m.1 = name with
    | none => rfl
    | some i =>
      have hi : i < members.length := (List.findIdx?_eq_some_iff_getElem.mp hf).1
      simp [hi]
  | array items => simp [memberIndex, property, hlength, hposition]
  | string s => simp [memberIndex, property, hlength]
  | _ => rfl

theorem pairwise_memberIndex (c : Json) : (memberIndex name c).Pairwise (· < ·) := by
  cases c with
  | object members =>
    rw [memberIndex]
    cases members.findIdx? fun m => m.1 = name <;> simp
  | _ => exact .nil

/-- Where every key is there once, a member of the key `name` is the one that is looked up. -/
theorem mem_memberIndex {members : List (String × Json)} (h : (members.map Prod.fst).Nodup)
    {i : Nat} : i ∈ memberIndex name (.object members) ↔ members[i]?.map Prod.fst = some name := by
  rw [memberIndex, Option.mem_toList, List.findIdx?_eq_some_iff_getElem,
    Option.map_eq_some_iff]
  constructor
  · rintro ⟨hi, hname, _⟩
    exact ⟨members[i], List.getElem?_eq_getElem hi, of_decide_eq_true hname⟩
  · rintro ⟨m, hm, hname⟩
    obtain ⟨hi, rfl⟩ := List.getElem?_eq_some_iff.mp hm
    refine ⟨hi, decide_eq_true hname, fun j hj hsame => ?_⟩
    have hkeys : members[j].1 ≠ members[i].1 :=
      List.pairwise_iff_getElem.mp (List.pairwise_map.mp h) j i _ hi hj
    exact hkeys ((of_decide_eq_true hsame).trans hname.symm)

theorem exists_mem_memberIndex (h : d.distinctKeys = true) (q : Place) :
    (∃ c, d.valueAt? q.container = some c ∧ q.index ∈ memberIndex name c) ↔
      d.keyAt? q = some name := by
  unfold keyAt?
  cases hc : d.valueAt? q.container with
  | none => simp
  | some c =>
    cases c with
    | object members =>
      have hkeys : (members.map Prod.fst).Nodup :=
        (distinctKeys_object_iff.mp (distinctKeys_of_valueAt? h hc)).1
      rw [← mem_memberIndex hkeys]
      simp
    | _ => simp [memberIndex]

end Json

namespace Step

variable {d : Json}

theorem found_recurse (s : Step) :
    (run d [.root, .recurse, s] .start).found = s.select d d.descendants := by
  simp [run, advance, select]

/-- Behind `..` a wildcard finds the values at all positions inside the document, and a name that is
neither a length nor a position finds all members of this name, given that no object has a key
twice. Each value is found once, in the order of the containers and within a container in the order
of its children. -/
theorem listed_recurse (d : Json) :
    d.Listed (fun q => (d.valueAt? q.position).isSome = true)
      (run d [.root, .recurse, .wildcard] .start).found ∧
    ∀ name, name ≠ "length" → Json.position? name = none → d.distinctKeys = true →
      d.Listed (fun q => d.keyAt? q = some name)
        (run d [.root, .recurse, .member name] .start).found := by
  constructor
  · rw [found_recurse]
    refine (Json.listed_descendants Json.map_children_range ?_ d).congr
      Json.isSome_valueAt?_position
    exact fun c => List.pairwise_lt_range
  · intro name hlength hposition hdistinct
    rw [found_recurse, select, List.filterMap_eq_flatMap_toList]
    refine (Json.listed_descendants (Json.map_children_memberIndex hlength hposition) ?_ d).congr
      (Json.exists_mem_memberIndex hdistinct)
    exact Json.pairwise_memberIndex

/-- Members of one name inside one another and in an array. -/
theorem listed_recurse_sample :
    let document : Json := .object [("b", .object [("c", .null), ("b", .bool true)]),
      ("c", .array [.object [("b", .array [])]])]
    let members : List Json :=
      [.object [("c", .null), ("b", .bool true)], .bool true, .array []]
    "b" ≠ "length" ∧ Json.position? "b" = none ∧ document.distinctKeys = true ∧
    document.Listed (fun q => document.keyAt? q = some "b") members := by
  intro document members
  have hname : "b" ≠ "length" := by decide
  have hposition : Json.position? "b" = none := rfl
  have hdistinct : document.distinctKeys = true := by decide
  have hfound : (run document [.root, .recurse, .member "b"] .start).found = members := by
    with_unfolding_all rfl
  exact ⟨hname, hposition, hdistinct,
    hfound ▸ (listed_recurse document).2 "b" hname hposition hdistinct⟩

end Step
end PathQuery
