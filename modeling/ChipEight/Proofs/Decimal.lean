/-
This file reads numbers back from their decimal digits.
-/
import Mathlib.Tactic.IntervalCases
import ChipEight.Text.Decimal

namespace ChipEight.Decimal

section Digits

/-- The digits before a position are read first. -/
theorem digitsFrom_append (limit value : Nat) (first second : List Char) :
    digitsFrom limit value (first ++ second) =
      (digitsFrom limit value first).bind fun value => digitsFrom limit value second := by
  induction first generalizing value with
  | nil => rfl
  | cons digit rest inductionHypothesis =>
      simp only [List.cons_append, digitsFrom]
      split
      · split
        · exact inductionHypothesis _
        · rfl
      · rfl

theorem digitsFrom_digitChar {limit value digit : Nat} (small : digit < 10)
    (fits : 10 * value + digit < limit) :
    digitsFrom limit value [digit.digitChar] = .ok (10 * value + digit) := by
  have isDigit : digit.digitChar.isDigit := by interval_cases digit <;> rfl
  have figure : digit.digitChar.toNat - '0'.toNat = digit := by interval_cases digit <;> rfl
  simp only [digitsFrom, if_pos isDigit, figure, if_pos fits]

/-- A number below the limit is read back from its digits: so are all the numbers on the way. -/
theorem digitsFrom_toDigits {limit number : Nat} (fits : number < limit) :
    digitsFrom limit 0 (Nat.toDigits 10 number) = .ok number := by
  induction number using Nat.strongRecOn with
  | ind number inductionHypothesis =>
      by_cases small : number < 10
      · rw [Nat.toDigits_of_lt_base small]
        have alone : 10 * 0 + number < limit := by omega
        exact (digitsFrom_digitChar small alone).trans (by rw [Nat.mul_zero, Nat.zero_add])
      · have shorter := inductionHypothesis (number / 10) (by omega) (by omega)
        have last : number % 10 < 10 := Nat.mod_lt _ (by decide)
        have whole : 10 * (number / 10) + number % 10 = number := Nat.div_add_mod number 10
        rw [Nat.toDigits_of_base_le (by decide) (by omega), digitsFrom_append, shorter]
        exact (digitsFrom_digitChar last (by omega)).trans (by rw [whole])

/-- No sign stands in front of the digits. -/
theorem parse_toString {limit number : Nat} (fits : number < limit) :
    parse limit (toString number) = .ok number := by
  have digits : (toString number).toList = Nat.toDigits 10 number := Nat.toList_repr
  have read := digitsFrom_toDigits fits
  rw [parse, digits]
  cases shape : Nat.toDigits 10 number with
  | nil => exact absurd shape Nat.toDigits_ne_nil
  | cons first rest =>
      have isDigit : first.isDigit :=
        Nat.isDigit_of_mem_toDigits (by decide) (Nat.le_refl 10) (shape ▸ List.mem_cons_self)
      rw [shape] at read
      -- A plus is no digit, so the digits are taken as they are.
      split
      · contradiction
      · cases ‹first :: rest = _›
        cases isDigit
      · cases ‹first :: rest = _›
        cases isDigit
      · exact read

end Digits

end ChipEight.Decimal
