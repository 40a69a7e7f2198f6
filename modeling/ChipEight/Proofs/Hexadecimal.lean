/-
This file reads numbers back from their digits in base sixteen.
-/
import Mathlib.Tactic.IntervalCases
import ChipEight.Text.Hex

namespace ChipEight.Hex

section Digits

/-- The number that a digit stands for; the letters follow the figures. -/
def digit (character : Char) : Nat :=
  if character.isDigit then character.toNat - 48 else character.toNat - 55

/-- The first digit counts most. -/
def value (digits : List Char) : Nat :=
  digits.foldl (fun before character => 16 * before + digit character) 0

theorem digit_digitChar (number : Nat) (small : number < 16) :
    digit number.digitChar.toUpper = number := by
  interval_cases number <;> rfl

theorem value_concat (digits : List Char) (last : Char) :
    value (digits ++ [last]) = 16 * value digits + digit last := by
  rw [value, List.foldl_append]
  rfl

theorem value_toDigits (number : Nat) :
    value ((Nat.toDigits 16 number).map Char.toUpper) = number := by
  induction number using Nat.strongRecOn with
  | ind number inductionHypothesis =>
      by_cases small : number < 16
      · rw [Nat.toDigits_of_lt_base small]
        exact (Nat.zero_add _).trans (digit_digitChar number small)
      · have shorter := inductionHypothesis (number / 16) (by omega)
        rw [Nat.toDigits_of_base_le (by decide) (by omega), List.map_append, List.map_singleton,
          value_concat, shorter, digit_digitChar _ (Nat.mod_lt _ (by decide))]
        omega

/-- Zeros in front do not count. -/
theorem value_padded (count : Nat) (digits : List Char) :
    value (List.replicate count '0' ++ digits) = value digits := by
  induction count with
  | zero => rfl
  | succ count inductionHypothesis => exact inductionHypothesis

theorem value_upper (width number : Nat) : value (upper width number).toList = number := by
  rw [upper, String.toList_ofList, value_padded, value_toDigits]

theorem upper_injective (width : Nat) {first second : Nat}
    (same : upper width first = upper width second) : first = second := by
  rw [← value_upper width first, same, value_upper]

/-- A number that fits is as wide as it should be. -/
theorem length_upper {width number : Nat} (positive : 0 < width) (fits : number < 16 ^ width) :
    (upper width number).toList.length = width := by
  have short : (Nat.toDigits 16 number).length ≤ width :=
    (Nat.length_toDigits_le_iff (by decide) positive).mpr fits
  rw [upper, String.toList_ofList, List.length_append, List.length_replicate, List.length_map]
  omega

end Digits

end ChipEight.Hex
