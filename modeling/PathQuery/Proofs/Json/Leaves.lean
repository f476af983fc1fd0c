import PathQuery.Expr.Operation
import PathQuery.Proofs.Json.Position

/-! Arrays as texts.
The text of an array joins the texts of its items level by level. It is the same text that one join of
all its leaves gives, so that the nesting cannot be seen in it: a nested array stands for its own
leaves, and one without items for the empty text, like null. -/
namespace PathQuery

namespace Json

mutual

/-- The leaves of an item, from left to right. An array without items is a leaf itself. -/
def leaves : Json → List Json
  | .array items => if items.isEmpty then [.array []] else itemLeaves items
  | v => [v]

/-- The leaves of items, one item after the other. -/
def itemLeaves : List Json → List Json
  | [] => []
  | v :: vs => leaves v ++ itemLeaves vs

end

/-- What a leaf adds to the text of an array. -/
def leafText : Json → String
  | .null => ""
  | .array _ => ""
  | v => v.text

/-- The texts of leaves with commas between them. -/
def joinLeaves (vs : List Json) : String := ",".intercalate (vs.map leafText)

/-- What an item adds to the text of an array. -/
def itemText (v : Json) : String := if v.kind = .null then "" else v.text

variable {v : Json} {items others before inner after : List Json}

/-! ## Leaves -/

@[simp] theorem leaves_array_nil : leaves (.array []) = [.array []] := rfl

theorem leaves_array (h : items ≠ []) : leaves (.array items) = itemLeaves items := by
  rw [leaves, if_neg]
  rwa [List.isEmpty_iff]

theorem leaves_of_not_isArray (h : v.isArray = false) : leaves v = [v] := by
  cases v with
  | array items => cases h
  | _ => rfl

theorem itemLeaves_eq_flatMap (items : List Json) : itemLeaves items = items.flatMap leaves := by
  induction items with
  | nil => rfl
  | cons v vs ih => rw [itemLeaves, ih, List.flatMap_cons]

theorem itemLeaves_append (items others : List Json) :
    itemLeaves (items ++ others) = itemLeaves items ++ itemLeaves others := by
  simp only [itemLeaves_eq_flatMap, List.flatMap_append]

/-- Opening a nested array leaves the leaves as they are. -/
theorem itemLeaves_open (h : inner ≠ []) :
    itemLeaves (before ++ .array inner :: after) = itemLeaves (before ++ (inner ++ after)) := by
  rw [itemLeaves_append, itemLeaves_append, itemLeaves_append, itemLeaves, leaves_array h]

theorem eq_nil_or_not_isArray_of_mem_leaves {leaf : Json} (h : leaf ∈ leaves v) :
    leaf = .array [] ∨ leaf.isArray = false := by
  induction v using inductionOnChildren with
  | step v ih =>
    cases v with
    | array items =>
      by_cases hnil : items = []
      · rw [hnil, leaves_array_nil, List.mem_singleton] at h
        exact .inl h
      · rw [leaves_array hnil, itemLeaves_eq_flatMap] at h
        obtain ⟨w, hw, hleaf⟩ := List.mem_flatMap.mp h
        exact ih w hw hleaf
    | _ =>
      rw [leaves_of_not_isArray rfl, List.mem_singleton] at h
      exact .inr (h ▸ rfl)

theorem leaves_ne_nil (v : Json) : leaves v ≠ [] := by
  induction v using inductionOnChildren with
  | step v ih =>
    cases v with
    | array items =>
      cases items with
      | nil => rw [leaves_array_nil]; exact List.cons_ne_nil _ _
      | cons w ws =>
        rw [leaves_array (List.cons_ne_nil w ws), itemLeaves]
        exact List.append_ne_nil_of_left_ne_nil (ih w List.mem_cons_self) _
    | _ => exact List.cons_ne_nil _ _

theorem itemLeaves_ne_nil (h : items ≠ []) : itemLeaves items ≠ [] := by
  rw [← leaves_array h]
  exact leaves_ne_nil _

/-! ## One join for all levels -/

@[simp] theorem joinLeaves_nil : joinLeaves [] = "" := by
  rw [joinLeaves, List.map_nil, String.intercalate_nil]

@[simp] theorem joinLeaves_singleton (v : Json) : joinLeaves [v] = leafText v := by
  rw [joinLeaves, List.map_singleton, String.intercalate_singleton]

theorem joinLeaves_append (hi : items ≠ []) (ho : others ≠ []) :
    joinLeaves (items ++ others) = joinLeaves items ++ "," ++ joinLeaves others := by
  have hi' : items.map leafText ≠ [] := by simpa using hi
  have ho' : others.map leafText ≠ [] := by simpa using ho
  rw [joinLeaves, List.map_append, String.intercalate_append_of_ne_nil hi' ho', joinLeaves,
    joinLeaves]

theorem itemTexts_eq_map (items : List Json) : itemTexts items = items.map itemText := by
  induction items with
  | nil => rw [itemTexts, List.map_nil]
  | cons v vs ih =>
    have hv : itemTexts (v :: vs) = itemText v :: itemTexts vs := by cases v <;> rfl
    rw [hv, ih, List.map_cons]

theorem text_array (items : List Json) :
    (array items).text = ",".intercalate (items.map itemText) := by
  rw [text, itemTexts_eq_map]

/-- If each item adds the join of its leaves, all items together do. -/
theorem intercalate_itemText (h : ∀ v ∈ items, itemText v = joinLeaves (leaves v)) :
    ",".intercalate (items.map itemText) = joinLeaves (itemLeaves items) := by
  induction items with
  | nil => rw [List.map_nil, String.intercalate_nil, itemLeaves, joinLeaves_nil]
  | cons v vs ih =>
    obtain ⟨hv, hvs⟩ := List.forall_mem_cons.mp h
    by_cases hnil : vs = []
    · rw [hnil, List.map_singleton, String.intercalate_singleton, itemLeaves, itemLeaves,
        List.append_nil, hv]
    · have hmap : vs.map itemText ≠ [] := by simpa using hnil
      rw [List.map_cons, String.intercalate_cons_of_ne_nil hmap, ih hvs, hv, itemLeaves,
        joinLeaves_append (leaves_ne_nil v) (itemLeaves_ne_nil hnil)]

/-- By induction on the nesting: an item adds the join of its leaves. -/
theorem itemText_eq_joinLeaves (v : Json) : itemText v = joinLeaves (leaves v) := by
  induction v using inductionOnChildren with
  | step v ih =>
    cases v with
    | array items =>
      have htext : itemText (.array items) = ",".intercalate (items.map itemText) :=
        text_array items
      have hitems : ∀ w ∈ items, itemText w = joinLeaves (leaves w) := ih
      rw [htext, intercalate_itemText hitems]
      by_cases hnil : items = []
      · rw [hnil, itemLeaves, joinLeaves_nil, leaves_array_nil, joinLeaves_singleton, leafText]
      · rw [leaves_array hnil]
    | _ =>
      rw [leaves_of_not_isArray rfl, joinLeaves_singleton]
      rfl

theorem text_array_eq_joinLeaves (items : List Json) :
    (array items).text = joinLeaves (itemLeaves items) := by
  rw [text_array, intercalate_itemText fun v _ => itemText_eq_joinLeaves v]

end Json

/-! ## Concatenation -/

namespace Outcome

variable {items others : List Json}

/-- An array is no number, so that it adds nothing but its text. -/
theorem add_array_congr (h : (Json.array items).text = (Json.array others).text) (o : Outcome) :
    add (some (.array items)) o = add (some (.array others)) o ∧
      add o (some (.array items)) = add o (some (.array others)) := by
  cases o with
  | none => exact ⟨rfl, rfl⟩
  | some v =>
    cases v with
    | string s => simp [add, Json.isString, h]
    | _ => exact ⟨rfl, rfl⟩

end Outcome

namespace Json

/-- The text of an array is one join of the texts of its leaves, of which none is an array with items.
So an array inside another one could as well be opened, or be null if it has no items. Joined to a
text, an array adds the texts of its leaves, and it makes no difference to any sum how they are nested. -/
theorem texts_of_arrays :
    (∀ items : List Json,
      (array items).text = ",".intercalate ((itemLeaves items).map leafText) ∧
      ∀ leaf ∈ itemLeaves items, leaf = .array [] ∨ leaf.isArray = false) ∧
    (∀ before inner after : List Json, inner ≠ [] →
      (array (before ++ .array inner :: after)).text =
        (array (before ++ (inner ++ after))).text) ∧
    (∀ before after : List Json,
      (array (before ++ .array [] :: after)).text = (array (before ++ .null :: after)).text) ∧
    (∀ (items : List Json) (s : String),
      BinaryOp.add.apply (some (.string s)) (some (.array items)) =
        some (.string (s ++ ",".intercalate ((itemLeaves items).map leafText))) ∧
      BinaryOp.add.apply (some (.array items)) (some (.string s)) =
        some (.string (",".intercalate ((itemLeaves items).map leafText) ++ s))) ∧
    ∀ items others : List Json,
      (itemLeaves items).map leafText = (itemLeaves others).map leafText → ∀ o : Outcome,
      BinaryOp.add.apply (some (.array items)) o = BinaryOp.add.apply (some (.array others)) o ∧
      BinaryOp.add.apply o (some (.array items)) = BinaryOp.add.apply o (some (.array others)) := by
  refine ⟨fun items => ⟨text_array_eq_joinLeaves items, fun leaf hleaf => ?_⟩, ?_, ?_, ?_, ?_⟩
  · rw [itemLeaves_eq_flatMap] at hleaf
    obtain ⟨v, -, hv⟩ := List.mem_flatMap.mp hleaf
    exact eq_nil_or_not_isArray_of_mem_leaves hv
  · intro before inner after h
    rw [text_array_eq_joinLeaves, text_array_eq_joinLeaves, itemLeaves_open h]
  · intro before after
    rw [text_array, text_array, List.map_append, List.map_append, List.map_cons, List.map_cons]
    rfl
  · intro items s
    rw [← joinLeaves, ← text_array_eq_joinLeaves]
    exact ⟨rfl, rfl⟩
  · intro items others h
    have htext : (array items).text = (array others).text := by
      rw [text_array_eq_joinLeaves, text_array_eq_joinLeaves, joinLeaves, h, joinLeaves]
    exact Outcome.add_array_congr htext

/-- A nested array with null and a text that holds a comma, one without items, and an object. -/
theorem texts_of_arrays_sample :
    let inner : List Json := [.null, .array [.string "b,c"]]
    let nested : List Json := [.bool true, .array inner, .array [], .object [("k", .array [])]]
    let flat : List Json := [.bool true, .null, .string "b,c", .null, .string "[object Object]"]
    (array nested).text = "true,,b,c,,[object Object]" ∧
    (.array [] ∈ itemLeaves nested ∧
      (Json.array [] = .array [] ∨ (Json.array []).isArray = false)) ∧
    (inner ≠ [] ∧ (array ([.bool true] ++ .array inner :: [.null])).text =
      (array ([.bool true] ++ (inner ++ [.null]))).text) ∧
    ((itemLeaves nested).map leafText = (itemLeaves flat).map leafText ∧
      BinaryOp.add.apply (some (.string ":")) (some (.array nested)) =
        BinaryOp.add.apply (some (.string ":")) (some (.array flat))) := by
  intro inner nested flat
  obtain ⟨hleaves, hopen, -, -, hsums⟩ := texts_of_arrays
  obtain ⟨htext, harrays⟩ := hleaves nested
  have hleaf : .array [] ∈ itemLeaves nested := by
    simp [nested, inner, itemLeaves, leaves]
  have hinner : inner ≠ [] := List.cons_ne_nil _ _
  have hsame : (itemLeaves nested).map leafText = (itemLeaves flat).map leafText := rfl
  exact ⟨htext.trans rfl, ⟨hleaf, harrays _ hleaf⟩,
    ⟨hinner, hopen [.bool true] inner [.null] hinner⟩, hsame, (hsums nested flat hsame _).2⟩

end Json
end PathQuery
