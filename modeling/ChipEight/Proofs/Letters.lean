/-
This file shows which characters differ only in their case.
-/

namespace ChipEight

section Letters

/-- The two characters are the same, or they are the capital and the small form of one of the
twenty-six Latin letters. -/
def SameLetter (left right : Char) : Prop :=
  left = right ∨ ∃ letter < 26,
    left.toNat = 65 + letter ∧ right.toNat = 97 + letter ∨
      left.toNat = 97 + letter ∧ right.toNat = 65 + letter

theorem toNat_toLower (letter : Char) :
    letter.toLower.toNat =
      if 65 ≤ letter.toNat ∧ letter.toNat ≤ 90 then letter.toNat + 32 else letter.toNat := by
  have capital : (letter.val ≥ 'A'.val ∧ letter.val ≤ 'Z'.val) ↔
      65 ≤ letter.toNat ∧ letter.toNat ≤ 90 := by
    simp only [ge_iff_le, UInt32.le_iff_toNat_le]
    rfl
  unfold Char.toLower
  by_cases inside : 65 ≤ letter.toNat ∧ letter.toNat ≤ 90
  · rw [dif_pos (capital.mpr inside), if_pos inside]
    change (letter.val + 32).toNat = letter.toNat + 32
    rw [UInt32.toNat_add, Char.toNat_val, show (32 : UInt32).toNat = 32 from rfl]
    omega
  · rw [dif_neg (fun between => inside (capital.mp between)), if_neg inside]

theorem toLower_eq_iff (left right : Char) :
    left.toLower = right.toLower ↔ SameLetter left right := by
  rw [← Char.toNat_inj, toNat_toLower, toNat_toLower, SameLetter, ← Char.toNat_inj]
  constructor
  · intro same
    by_cases equal : left.toNat = right.toNat
    · exact .inl equal
    · exact .inr ⟨min left.toNat right.toNat - 65, by split at same <;> split at same <;> omega⟩
  · rintro (equal | ⟨letter, below, shape⟩)
    · rw [equal]
    · split <;> split <;> omega

theorem toNat_toUpper (letter : Char) :
    letter.toUpper.toNat =
      if 97 ≤ letter.toNat ∧ letter.toNat ≤ 122 then letter.toNat - 32 else letter.toNat := by
  have small : ('a'.val ≤ letter.val ∧ letter.val ≤ 'z'.val) ↔
      97 ≤ letter.toNat ∧ letter.toNat ≤ 122 := by
    simp only [UInt32.le_iff_toNat_le]
    rfl
  unfold Char.toUpper
  by_cases inside : 97 ≤ letter.toNat ∧ letter.toNat ≤ 122
  · rw [dif_pos (small.mpr inside), if_pos inside]
    change (letter.val + ('A'.val - 'a'.val)).toNat = letter.toNat - 32
    rw [UInt32.toNat_add, Char.toNat_val, show ('A'.val - 'a'.val).toNat = 2 ^ 32 - 32 from rfl]
    omega
  · rw [dif_neg (fun between => inside (small.mp between)), if_neg inside]

/-- A letter is raised to its own capital. -/
theorem toUpper_eq {letter capital : Char} (same : SameLetter letter capital)
    (isCapital : 65 ≤ capital.toNat ∧ capital.toNat ≤ 90) : letter.toUpper = capital := by
  rw [← Char.toNat_inj, toNat_toUpper]
  obtain rfl | ⟨place, below, shape⟩ := same
  · rw [if_neg (by omega)]
  · split <;> omega

end Letters

end ChipEight
