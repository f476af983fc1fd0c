import Mathlib.Data.List.Forall2
import Mathlib.Data.List.Perm.Subperm
import Mathlib.Logic.Relation
import PathQuery.Proofs.Double.Comparison
import PathQuery.Proofs.Json.Position

/-! Structural equality as an equivalence.
On values in which no object has a key twice it is reflexive, symmetric and transitive, and it does
not see in what order the members of an object stand, here or further inside. -/
namespace PathQuery.Json

variable {a b c v w : Json} {as bs : List Json} {ms ns : List (String × Json)}

/-! ## Lists -/

theorem sameItems_iff :
    sameItems as bs = true ↔ List.Forall₂ (fun a b => a.same b = true) as bs := by
  induction as generalizing bs with
  | nil => cases bs <;> simp [sameItems]
  | cons a as ih => cases bs <;> simp [sameItems, ih]

theorem hasMembers_iff :
    hasMembers ms ns = true ↔
      ∀ m ∈ ms, ∃ w, lookup m.1 ns = some w ∧ m.2.same w = true := by
  induction ms with
  | nil => simp [hasMembers]
  | cons m ms ih =>
    obtain ⟨k, v⟩ := m
    rw [hasMembers, Bool.and_eq_true, ih, List.forall_mem_cons]
    refine and_congr_left fun _ => ?_
    cases lookup k ns <;> simp

/-! ## What a value is the same as -/

theorem same_null_iff : null.same b = true ↔ null = b := by
  cases b with
  | null => exact ⟨fun _ => rfl, fun _ => rfl⟩
  | _ => exact ⟨fun h => (by cases h), nofun⟩

theorem same_bool_iff {x : Bool} : (bool x).same b = true ↔ bool x = b := by
  cases b with
  | bool y => exact beq_iff_eq.trans ⟨congrArg bool, bool.inj⟩
  | _ => exact ⟨fun h => (by cases h), nofun⟩

theorem same_number_iff {m : Number} :
    (number m).same b = true ↔ ∃ n, b = number n ∧ m.same n = true := by
  cases b with
  | number n => exact ⟨fun h => ⟨n, rfl, h⟩, fun ⟨_, rfl, h⟩ => h⟩
  | _ => exact ⟨fun h => (by cases h), nofun⟩

theorem same_string_iff {s : String} : (string s).same b = true ↔ string s = b := by
  cases b with
  | string t => exact beq_iff_eq.trans ⟨congrArg string, string.inj⟩
  | _ => exact ⟨fun h => (by cases h), nofun⟩

theorem same_array_iff : (array as).same b = true ↔
    ∃ bs, b = array bs ∧ List.Forall₂ (fun a b => a.same b = true) as bs := by
  cases b with
  | array bs => exact sameItems_iff.trans ⟨fun h => ⟨bs, rfl, h⟩, fun ⟨_, rfl, h⟩ => h⟩
  | _ => exact ⟨fun h => (by cases h), nofun⟩

theorem same_object_iff : (object ms).same b = true ↔
    ∃ ns, b = object ns ∧ ms.length = ns.length ∧
      ∀ m ∈ ms, ∃ w, lookup m.1 ns = some w ∧ m.2.same w = true := by
  cases b with
  | object ns =>
    have hsame : (object ms).same (object ns) =
        (ms.length == ns.length && hasMembers ms ns) := rfl
    rw [hsame, Bool.and_eq_true, beq_iff_eq, hasMembers_iff]
    exact ⟨fun h => ⟨ns, rfl, h⟩, fun ⟨_, rfl, h⟩ => h⟩
  | _ => exact ⟨fun h => (by cases h), nofun⟩

/-- Where every key is there once, each member needs one of its own key that is the same. -/
theorem same_object_of_mem (hkeys : (ns.map Prod.fst).Nodup) (hlength : ms.length = ns.length)
    (h : ∀ m ∈ ms, ∃ w, (m.1, w) ∈ ns ∧ m.2.same w = true) :
    (object ms).same (object ns) = true := by
  refine same_object_iff.mpr ⟨ns, rfl, hlength, fun m hm => ?_⟩
  obtain ⟨w, hw, hsame⟩ := h m hm
  exact ⟨w, lookup_of_mem hkeys hw, hsame⟩

theorem kind_eq_of_same (h : a.same b = true) : a.kind = b.kind := by
  cases a <;> cases b <;> first | rfl | cases h

/-! ## An equivalence -/

theorem same_self (h : v.distinctKeys = true) : v.same v = true := by
  induction v using inductionOnChildren with
  | step v ih =>
    have hchild : ∀ c ∈ v.children, c.same c = true :=
      fun c hc => ih c hc (distinctKeys_of_mem_children h hc)
    cases v with
    | null => exact same_null_iff.mpr rfl
    | bool x => exact same_bool_iff.mpr rfl
    | number n => exact same_number_iff.mpr ⟨n, rfl, Number.same_self n⟩
    | string s => exact same_string_iff.mpr rfl
    | array items => exact same_array_iff.mpr ⟨items, rfl, List.forall₂_same.mpr hchild⟩
    | object members =>
      have hkeys : (members.map Prod.fst).Nodup := (distinctKeys_object_iff.mp h).1
      exact same_object_of_mem hkeys rfl
        fun m hm => ⟨m.2, hm, hchild m.2 (List.mem_map_of_mem hm)⟩

/-- Of two objects of one size, the second has no other keys than the first if it has all of them. -/
theorem perm_keys (hkeys : (ms.map Prod.fst).Nodup) (hlength : ms.length = ns.length)
    (hfound : ∀ m ∈ ms, ∃ w, lookup m.1 ns = some w) :
    (ms.map Prod.fst).Perm (ns.map Prod.fst) := by
  have hsubset : ms.map Prod.fst ⊆ ns.map Prod.fst := by
    intro k hk
    obtain ⟨m, hm, rfl⟩ := List.mem_map.mp hk
    obtain ⟨w, hw⟩ := hfound m hm
    exact List.mem_map.mpr ⟨(m.1, w), mem_of_lookup hw, rfl⟩
  refine (List.subperm_of_subset hkeys hsubset).perm_of_length_le ?_
  simp [hlength]

theorem same_symm (h : a.distinctKeys = true) (hab : a.same b = true) : b.same a = true := by
  induction a using inductionOnChildren generalizing b with
  | step a ih =>
    have hchild : ∀ c ∈ a.children, ∀ w, c.same w = true → w.same c = true :=
      fun c hc w hw => ih c hc (distinctKeys_of_mem_children h hc) hw
    cases a with
    | null => exact same_null_iff.mp hab ▸ hab
    | bool x => exact same_bool_iff.mp hab ▸ hab
    | number m =>
      obtain ⟨n, rfl, hmn⟩ := same_number_iff.mp hab
      exact same_number_iff.mpr ⟨m, rfl, Number.same_symm hmn⟩
    | string s => exact same_string_iff.mp hab ▸ hab
    | array as =>
      obtain ⟨bs, rfl, hitems⟩ := same_array_iff.mp hab
      have hboth : List.Forall₂ (fun c w => (∀ u, c.same u = true → u.same c = true) ∧
          c.same w = true) as bs := (List.forall₂_and_left as bs).mpr ⟨hchild, hitems⟩
      exact same_array_iff.mpr ⟨as, rfl, (hboth.imp fun c w hcw => hcw.1 w hcw.2).flip⟩
    | object ms =>
      obtain ⟨ns, rfl, hlength, hmembers⟩ := same_object_iff.mp hab
      have hkeys : (ms.map Prod.fst).Nodup := (distinctKeys_object_iff.mp h).1
      have hperm : (ms.map Prod.fst).Perm (ns.map Prod.fst) :=
        perm_keys hkeys hlength fun m hm => (hmembers m hm).imp fun _ => And.left
      refine same_object_of_mem hkeys hlength.symm fun n hn => ?_
      -- the member of the same key on the other side was found to be the same as this one
      obtain ⟨m, hm, hkey⟩ := List.mem_map.mp (hperm.mem_iff.mpr (List.mem_map_of_mem hn))
      obtain ⟨w, hw, hsame⟩ := hmembers m hm
      have hfound : lookup m.1 ns = some n.2 :=
        lookup_of_mem (hperm.nodup_iff.mp hkeys) (hkey ▸ hn)
      have hwn : w = n.2 := Option.some.inj (hw.symm.trans hfound)
      refine ⟨m.2, hkey ▸ hm, ?_⟩
      exact hchild m.2 (List.mem_map_of_mem hm) n.2 (hwn ▸ hsame)

theorem forall₂_trans {R : Json → Json → Prop} {cs : List Json}
    (htrans : ∀ a ∈ as, ∀ b c, R a b → R b c → R a c) (hab : List.Forall₂ R as bs)
    (hbc : List.Forall₂ R bs cs) : List.Forall₂ R as cs := by
  induction hab generalizing cs with
  | nil =>
    cases hbc
    exact .nil
  | @cons a b as bs hab _ ih =>
    obtain ⟨hhead, htail⟩ := List.forall_mem_cons.mp htrans
    cases hbc with
    | @cons _ c _ cs hbc hrest => exact .cons (hhead b c hab hbc) (ih htail hrest)

theorem same_trans (hab : a.same b = true) (hbc : b.same c = true) : a.same c = true := by
  induction a using inductionOnChildren generalizing b c with
  | step a ih =>
    have hchild : ∀ d ∈ a.children, ∀ v w, d.same v = true → v.same w = true → d.same w = true :=
      fun d hd v w hdv hvw => ih d hd hdv hvw
    cases a with
    | null => exact same_null_iff.mp hab ▸ hbc
    | bool x => exact same_bool_iff.mp hab ▸ hbc
    | number l =>
      obtain ⟨m, rfl, hlm⟩ := same_number_iff.mp hab
      obtain ⟨n, rfl, hmn⟩ := same_number_iff.mp hbc
      exact same_number_iff.mpr ⟨n, rfl, Number.same_trans hlm hmn⟩
    | string s => exact same_string_iff.mp hab ▸ hbc
    | array as =>
      obtain ⟨bs, rfl, hitems⟩ := same_array_iff.mp hab
      obtain ⟨cs, rfl, hitems'⟩ := same_array_iff.mp hbc
      exact same_array_iff.mpr ⟨cs, rfl, forall₂_trans hchild hitems hitems'⟩
    | object ms =>
      obtain ⟨ns, rfl, hlength, hmembers⟩ := same_object_iff.mp hab
      obtain ⟨os, rfl, hlength', hmembers'⟩ := same_object_iff.mp hbc
      refine same_object_iff.mpr ⟨os, rfl, hlength.trans hlength', fun m hm => ?_⟩
      obtain ⟨v, hv, hsame⟩ := hmembers m hm
      obtain ⟨w, hw, hsame'⟩ := hmembers' (m.1, v) (mem_of_lookup hv)
      exact ⟨w, hw, hchild m.2 (List.mem_map_of_mem hm) v w hsame hsame'⟩

/-! ## The order of members -/

/-- Values of which the second has the members of one object, here or inside, in another order. -/
inductive Reordered : Json → Json → Prop
  | members {ms ns : List (String × Json)} (h : ms.Perm ns) : Reordered (object ms) (object ns)
  | item (before : List Json) {v w : Json} (h : Reordered v w) (after : List Json) :
    Reordered (array (before ++ v :: after)) (array (before ++ w :: after))
  | member (before : List (String × Json)) (key : String) {v w : Json} (h : Reordered v w)
    (after : List (String × Json)) :
    Reordered (object (before ++ (key, v) :: after)) (object (before ++ (key, w) :: after))

theorem forall_mem_append_cons {α : Type} {p : α → Prop} {before after : List α} {x : α} :
    (∀ y ∈ before ++ x :: after, p y) ↔
      (∀ y ∈ before, p y) ∧ p x ∧ ∀ y ∈ after, p y := by
  rw [List.forall_mem_append, List.forall_mem_cons]

theorem Reordered.distinctKeys (h : Reordered v w) (hv : v.distinctKeys = true) :
    w.distinctKeys = true := by
  induction h with
  | @members ms ns h =>
    obtain ⟨hkeys, hvalues⟩ := distinctKeys_object_iff.mp hv
    have hperm : (ms.map Prod.fst).Perm (ns.map Prod.fst) := h.map Prod.fst
    exact distinctKeys_object_iff.mpr
      ⟨hperm.nodup_iff.mp hkeys, fun n hn => hvalues n (h.mem_iff.mpr hn)⟩
  | item before _ after ih =>
    obtain ⟨hbefore, hv, hafter⟩ := forall_mem_append_cons.mp (distinctKeys_array_iff.mp hv)
    exact distinctKeys_array_iff.mpr (forall_mem_append_cons.mpr ⟨hbefore, ih hv, hafter⟩)
  | member before key _ after ih =>
    obtain ⟨hkeys, hvalues⟩ := distinctKeys_object_iff.mp hv
    obtain ⟨hbefore, hv, hafter⟩ := forall_mem_append_cons.mp hvalues
    exact distinctKeys_object_iff.mpr
      ⟨by simpa using hkeys, forall_mem_append_cons.mpr ⟨hbefore, ih hv, hafter⟩⟩

theorem Reordered.same (h : Reordered v w) (hv : v.distinctKeys = true) : v.same w = true := by
  have hw : w.distinctKeys = true := h.distinctKeys hv
  induction h with
  | @members ms ns h =>
    obtain ⟨_, hvalues⟩ := distinctKeys_object_iff.mp hv
    obtain ⟨hkeys, _⟩ := distinctKeys_object_iff.mp hw
    exact same_object_of_mem hkeys h.length_eq
      fun m hm => ⟨m.2, h.mem_iff.mp hm, same_self (hvalues m hm)⟩
  | item before h after ih =>
    obtain ⟨hbefore, hv, hafter⟩ := forall_mem_append_cons.mp (distinctKeys_array_iff.mp hv)
    have hself : ∀ {vs : List Json}, (∀ v ∈ vs, v.distinctKeys = true) →
        List.Forall₂ (fun a b => a.same b = true) vs vs :=
      fun hvs => List.forall₂_same.mpr fun c hc => same_self (hvs c hc)
    refine same_array_iff.mpr ⟨_, rfl, List.rel_append (hself hbefore) ?_⟩
    exact .cons (ih hv (h.distinctKeys hv)) (hself hafter)
  | member before key h after ih =>
    obtain ⟨_, hvalues⟩ := distinctKeys_object_iff.mp hv
    obtain ⟨hbefore, hv, hafter⟩ := forall_mem_append_cons.mp hvalues
    obtain ⟨hkeys, _⟩ := distinctKeys_object_iff.mp hw
    refine same_object_of_mem hkeys (by simp) (forall_mem_append_cons.mpr ⟨?_, ?_, ?_⟩)
    · exact fun m hm => ⟨m.2, by simp [hm], same_self (hbefore m hm)⟩
    · exact ⟨_, by simp, ih hv (h.distinctKeys hv)⟩
    · exact fun m hm => ⟨m.2, by simp [hm], same_self (hafter m hm)⟩

/-- Any number of objects, here and inside, with their members in another order. -/
theorem same_of_reordered (h : Relation.ReflTransGen Reordered v w) (hv : v.distinctKeys = true) :
    v.same w = true := by
  suffices hboth : w.distinctKeys = true ∧ v.same w = true from hboth.2
  induction h with
  | refl => exact ⟨hv, same_self hv⟩
  | tail _ hstep ih =>
    obtain ⟨hdistinct, hsame⟩ := ih
    exact ⟨hstep.distinctKeys hdistinct, same_trans hsame (hstep.same hdistinct)⟩

end PathQuery.Json
