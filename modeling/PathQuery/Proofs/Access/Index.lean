import Mathlib.Tactic.Common
import PathQuery.Step.Execution

/-! Positions as names.
The decimal text of a position is read as a property name in the same way as the position itself: in
an array it denotes the same item, and an object has its member under this text in either case. -/
namespace PathQuery

namespace Json

variable {i : Int}

theorem toList_intText (i : Int) :
    (intText i).toList = (if i < 0 then ['-'] else []) ++ Nat.toDigits 10 i.natAbs :=
  String.toList_ofList

/-- The text of an integer consists of digits and perhaps a minus sign. -/
theorem intText_ne_length (i : Int) : intText i ≠ "length" := by
  intro h
  have hchar : 'l' ∈ (intText i).toList := by
    rw [h]
    decide
  rw [toList_intText, List.mem_append] at hchar
  rcases hchar with hsign | hdigit
  · split at hsign <;> simp at hsign
  · have := Nat.isDigit_of_mem_toDigits (by decide) (by decide) hdigit
    exact absurd this (by decide)

/-- A minus sign starts no position. -/
theorem position?_intText_of_neg (h : i < 0) : position? (intText i) = none := by
  have hchars : (intText i).toList = '-' :: Nat.toDigits 10 i.natAbs := by
    rw [toList_intText, if_pos h, List.singleton_append]
  have hminus : ('-' :: Nat.toDigits 10 i.natAbs).all Char.isDigit = false := by
    rw [List.all_cons]
    rfl
  rw [position?, hchars]
  simp [hminus]

/-- A row of digits denotes the number that it is read as, if that fits 64 bits. -/
theorem position?_of_digits {name : String} (hne : name.toList ≠ [])
    (hdigits : ∀ c ∈ name.toList, c.isDigit = true)
    (hlt : Nat.ofDigitChars 10 name.toList 0 < 18446744073709551616) :
    position? name = some (Nat.ofDigitChars 10 name.toList 0) := by
  rw [position?]
  split
  next cs hplus =>
    -- a plus sign is no digit
    have := hdigits '+' (hplus ▸ List.mem_cons_self)
    exact absurd this (by decide)
  next => simp [hne, List.all_eq_true.mpr hdigits, hlt]

theorem position?_intText_of_nonneg (h : 0 ≤ i) (hi : i < 18446744073709551616) :
    position? (intText i) = some i.toNat := by
  have hchars : (intText i).toList = Nat.toDigits 10 i.toNat := by
    rw [toList_intText, if_neg (by omega), List.nil_append]
    congr 1
    omega
  have hdigits : ∀ c ∈ (intText i).toList, c.isDigit = true := by
    rw [hchars]
    exact fun c hc => Nat.isDigit_of_mem_toDigits (by decide) (by decide) hc
  have hvalue : Nat.ofDigitChars 10 (intText i).toList 0 = i.toNat := by
    rw [hchars, Nat.ofDigitChars_ten_toDigits]
  rw [position?_of_digits (by rw [hchars]; exact Nat.toDigits_ne_nil) hdigits (by omega), hvalue]

/-- The text of an integer denotes a position exactly if the integer is one. -/
theorem position?_intText (hi : i < 18446744073709551616) :
    position? (intText i) = if i < 0 then none else some i.toNat := by
  split
  next h => exact position?_intText_of_neg h
  next h => exact position?_intText_of_nonneg (by omega) hi

theorem element_eq_property (hi : i < 18446744073709551616) (v : Json) :
    v.element i = v.property (intText i) := by
  cases v with
  | array items =>
    rw [element, property, if_neg (intText_ne_length i), position?_intText hi]
    split <;> rfl
  | _ => rfl

end Json

namespace Step

/-- A position of 64 bits and the name that is its decimal text lead to the same element of every
value, and as steps they find the same, whatever has been found before. -/
theorem select_index_eq_select_member (root : Json) (i : Int64) :
    (∀ v : Json, v.element i.toInt = v.property (Json.intText i.toInt)) ∧
    ∀ found, (index i.toInt).select root found =
      (member (Json.intText i.toInt)).select root found := by
  have hi : i.toInt < 18446744073709551616 := by
    have := i.toInt_lt
    omega
  have helement : ∀ v : Json, v.element i.toInt = v.property (Json.intText i.toInt) :=
    Json.element_eq_property hi
  refine ⟨helement, fun found => ?_⟩
  rw [select, select]
  exact congrArg (found.filterMap ·) (funext helement)

/-- The last item of an array, no item, and a member whose name looks like a negative number. -/
example : [2, 3, -1].map (fun i : Int64 => (index i.toInt).select .null
    [.array [.null, .null, .string "c"], .object [("-1", .string "m")]]) =
      [[.string "c"], [], [.string "m"]] := rfl

end Step
end PathQuery
