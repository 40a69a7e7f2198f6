/-
This file reads and writes records of numbers, each with the lowest byte first.
-/

namespace ChipEight.Fields

/-- The first byte counts ones, and each next byte counts 256 times as much. -/
def value : List UInt8 → Nat
  | [] => 0
  | byte :: rest => byte.toNat + 0x100 * value rest

/-- The number takes exactly the given count of bytes. -/
def bytes : Nat → Nat → List UInt8
  | 0, _ => []
  | width + 1, number => UInt8.ofNat (number % 0x100) :: bytes width (number / 0x100)

/-- The data splits only if it is long enough. -/
def split? : Nat → List UInt8 → Option (List UInt8 × List UInt8)
  | 0, data => some ([], data)
  | _ + 1, [] => none
  | count + 1, byte :: data =>
      match split? count data with
      | some (front, rest) => some (byte :: front, rest)
      | none => none

/-- The widths tell how many bytes each number takes. -/
def read? : List Nat → List UInt8 → Option (List Nat × List UInt8)
  | [], data => some ([], data)
  | width :: widths, data =>
      match split? width data with
      | none => none
      | some (front, rest) =>
          match read? widths rest with
          | none => none
          | some (numbers, rest) => some (value front :: numbers, rest)

/-- Each number comes with its width. -/
def write : List (Nat × Nat) → List UInt8
  | [] => []
  | (width, number) :: fields => bytes width number ++ write fields

theorem bytesLength (width number : Nat) : (bytes width number).length = width := by
  induction width generalizing number with
  | zero => rfl
  | succ width inductionHypothesis => simp [bytes, inductionHypothesis]

theorem valueBytes (width number : Nat) (small : number < Nat.pow 0x100 width) :
    value (bytes width number) = number := by
  induction width generalizing number with
  | zero =>
      simp at small
      simp [bytes, value, small]
  | succ width inductionHypothesis =>
      have bound : number < Nat.pow 0x100 width * 0x100 := small
      have rest := inductionHypothesis (number / 0x100) (by omega)
      simp only [bytes, value, rest, UInt8.toNat_ofNat']
      omega

theorem splitAppend (front rest : List UInt8) :
    split? front.length (front ++ rest) = some (front, rest) := by
  induction front with
  | nil => rfl
  | cons byte front inductionHypothesis => simp [split?, inductionHypothesis]

/-- Numbers that fit their widths are read back as they were written. -/
theorem readWrite (fields : List (Nat × Nat)) (rest : List UInt8)
    (small : ∀ field ∈ fields, field.2 < Nat.pow 0x100 field.1) :
    read? (fields.map Prod.fst) (write fields ++ rest) = some (fields.map Prod.snd, rest) := by
  induction fields with
  | nil => rfl
  | cons field fields inductionHypothesis =>
      obtain ⟨width, number⟩ := field
      have first := splitAppend (bytes width number) (write fields ++ rest)
      rw [bytesLength] at first
      simp only [List.map_cons, write, read?, List.append_assoc, first]
      rw [inductionHypothesis fun field member => small field (by simp [member])]
      simp [valueBytes width number (small (width, number) (by simp))]

end ChipEight.Fields
