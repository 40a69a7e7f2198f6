/-
This file holds the state of the sixteen keys.
-/
import ChipEight.Word

namespace ChipEight

/-- The keypad knows of each key whether it is pressed. -/
structure Keypad where
  keys : Vector Bool 16
  deriving DecidableEq

namespace Keypad

def size : Nat := 16

def released : Keypad := ⟨Vector.replicate 16 false⟩

def set (keypad : Keypad) (key : Nibble) (pressed : Bool) : Keypad :=
  ⟨keypad.keys.set key pressed⟩

def toggle (keypad : Keypad) (key : Nibble) : Keypad :=
  keypad.set key (!keypad.keys.get key)

/-- A number past the last key is neither pressed nor released. -/
def isPressed? (keypad : Keypad) (key : Nat) : Option Bool :=
  keypad.keys[key]?

/-- The highest pressed key wins. -/
def highest? (keypad : Keypad) : Option Nibble :=
  (List.finRange 16).reverse.find? fun key => keypad.keys.get key

/-- Keypads that agree on every key are the same. -/
theorem ext {left right : Keypad}
    (same : ∀ key : Nibble, left.keys.get key = right.keys.get key) : left = right := by
  obtain ⟨left⟩ := left
  obtain ⟨right⟩ := right
  congr
  exact Vector.ext fun key below => same ⟨key, below⟩

theorem getSet (keypad : Keypad) (key : Nibble) (pressed : Bool) (other : Nibble) :
    (keypad.set key pressed).keys.get other =
      if key = other then pressed else keypad.keys.get other := by
  change (keypad.keys.set key.val pressed key.below)[other.val] = _
  rw [Vector.getElem_set]
  simp only [Fin.ext_iff]
  rfl

theorem isPressedSet (keypad : Keypad) (key : Nibble) (pressed : Bool) (other : Nat) :
    (keypad.set key pressed).isPressed? other =
      if key.val = other then some pressed else keypad.isPressed? other := by
  simp only [isPressed?, set, Vector.getElem?_set]

theorem isPressedPast (keypad : Keypad) (key : Nat) :
    keypad.isPressed? key = none ↔ 16 ≤ key := by
  simp [isPressed?]

theorem highestNone (keypad : Keypad) :
    keypad.highest? = none ↔ ∀ key : Nibble, keypad.keys.get key = false := by
  simp [highest?, List.find?_eq_none]

/-- A search from the highest place down ends at the highest place that is asked for. -/
theorem findHighest (asked : Nibble → Bool) (place : Nibble) :
    (List.finRange 16).reverse.find? asked = some place ↔
      asked place = true ∧ ∀ other, asked other = true → other ≤ place := by
  have falling : (List.finRange 16).reverse.Pairwise (· > ·) :=
    List.pairwise_reverse.mpr (List.pairwise_lt_finRange 16)
  rw [List.find?_eq_some_iff_append]
  refine and_congr_right fun _ => ?_
  constructor
  · rintro ⟨higher, lower, shape, passed⟩ other found
    have member : other ∈ (List.finRange 16).reverse := by simp
    rw [shape] at member falling
    obtain above | rfl | below : other ∈ higher ∨ other = place ∨ other ∈ lower := by
      simpa using member
    · have skipped := passed other above
      simp [found] at skipped
    · exact Nat.le_refl _
    · have tail := (List.pairwise_append.mp falling).2.1
      exact Nat.le_of_lt ((List.pairwise_cons.mp tail).1 other below)
  · intro highest
    have member : place ∈ (List.finRange 16).reverse := by simp
    obtain ⟨higher, lower, shape⟩ := List.append_of_mem member
    refine ⟨higher, lower, shape, fun other above => ?_⟩
    rw [shape] at falling
    have apart := (List.pairwise_append.mp falling).2.2 other above place (by simp)
    have skipped : asked other ≠ true := fun found => Nat.not_le.mpr apart (highest other found)
    simpa using skipped

/-- The highest pressed key has no pressed key above it. -/
theorem highestSome (keypad : Keypad) (key : Nibble) :
    keypad.highest? = some key ↔
      keypad.keys.get key = true ∧ ∀ other, keypad.keys.get other = true → other ≤ key :=
  findHighest _ key

end Keypad
end ChipEight
