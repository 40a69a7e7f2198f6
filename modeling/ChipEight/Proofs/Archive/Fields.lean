/-
This file reads records of numbers back field by field.
-/
import Mathlib.Algebra.Ring.Nat
import ChipEight.Archive.Fields

namespace ChipEight.Fields

/-- Data that is long enough splits at the count. -/
theorem split?_eq (count : Nat) (data : List UInt8) :
    split? count data = if count ≤ data.length then some (data.take count, data.drop count) else none := by
  induction count generalizing data with
  | zero => rfl
  | succ count inductionHypothesis =>
      cases data with
      | nil => rfl
      | cons byte data =>
          simp only [split?, inductionHypothesis, List.length_cons, Nat.add_le_add_iff_right,
            List.take_succ_cons, List.drop_succ_cons]
          by_cases long : count ≤ data.length <;> simp [long]

/-- The numbers are read one after another. -/
theorem read?_cons (width : Nat) (widths : List Nat) (data : List UInt8) :
    read? (width :: widths) data =
      if width ≤ data.length then
        (read? widths (data.drop width)).map fun read => (value (data.take width) :: read.1, read.2)
      else none := by
  rw [read?, split?_eq]
  by_cases long : width ≤ data.length
  · simp only [if_pos long]
    cases read? widths (data.drop width) <;> rfl
  · simp only [if_neg long]

theorem length_write (fields : List (Nat × Nat)) :
    (write fields).length = (fields.map Prod.fst).sum := by
  induction fields with
  | nil => rfl
  | cons field fields inductionHypothesis =>
      rw [write, List.length_append, bytesLength, inductionHypothesis, List.map_cons, List.sum_cons]

theorem write_append (first second : List (Nat × Nat)) :
    write (first ++ second) = write first ++ write second := by
  induction first with
  | nil => rfl
  | cons field first inductionHypothesis =>
      rw [List.cons_append, write, inductionHypothesis, write, List.append_assoc]

/-- Fields that are skipped are read like one number. -/
theorem read?_skipped (front fields : List (Nat × Nat)) (widths : List Nat) (rest : List UInt8) :
    read? ((write front).length :: widths) (write (front ++ fields) ++ rest) =
      (read? widths (write fields ++ rest)).map fun read => (value (write front) :: read.1, read.2) := by
  rw [read?_cons, write_append, List.append_assoc, if_pos (by simp), List.drop_left, List.take_left]

variable {width number : Nat}

/-- The first field is read back without the others. -/
theorem read?_first (small : number < Nat.pow 0x100 width) (fields : List (Nat × Nat))
    (rest : List UInt8) :
    read? [width] (write ((width, number) :: fields) ++ rest) =
      some ([number], write fields ++ rest) := by
  have first := readWrite [(width, number)] (write fields ++ rest) (by simpa using small)
  simpa only [write, List.append_assoc, List.nil_append, List.map_cons, List.map_nil] using first

/-- The number is in the first bytes, whether or not a record is read there. -/
theorem value_take_write (small : number < Nat.pow 0x100 width) (fields : List (Nat × Nat))
    (rest : List UInt8) :
    value ((write ((width, number) :: fields) ++ rest).take width) = number := by
  rw [write, List.append_assoc, List.take_left' (bytesLength width number),
    valueBytes width number small]

end ChipEight.Fields
