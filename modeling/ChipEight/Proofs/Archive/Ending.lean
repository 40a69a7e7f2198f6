/-
This file shows that the end record of a packed archive is found, and that it leads to the directory
unless the bytes before it are taken for a locator.
-/
import ChipEight.Archive.Packing
import ChipEight.Proofs.Archive.Fields

namespace ChipEight

namespace Archive

section Ending

variable {length position : Nat}

/-- A suffix without room for the record cannot be the end record. -/
theorem lastEnd?_short (short : length < position + endSize) (found : Option (Nat × List UInt8))
    (data : List UInt8) : lastEnd? length position found data = found := by
  induction data generalizing position with
  | nil => rfl
  | cons byte rest inductionHypothesis =>
      have cramped : startsEnd length position (byte :: rest) = false := by
        simp [startsEnd, Nat.not_le.mpr short]
      simp only [lastEnd?, cramped, Bool.false_eq_true, if_false]
      exact inductionHypothesis (by omega)

theorem lastEnd?_append (length position : Nat) (found : Option (Nat × List UInt8))
    (front data : List UInt8) :
    ∃ other, lastEnd? length position found (front ++ data) =
      lastEnd? length (position + front.length) other data := by
  -- What looks like a record on the way is found too, and a later one replaces it.
  induction front generalizing position found with
  | nil => exact ⟨found, rfl⟩
  | cons byte front inductionHypothesis =>
      rw [List.cons_append, lastEnd?, List.length_cons, Nat.add_comm front.length, ← Nat.add_assoc]
      exact inductionHypothesis _ _

/-- A record that fills the end of the data is found, whatever stands before it. -/
theorem lastEnd?_ending (front ending : List UInt8) (size : ending.length = endSize)
    (signed : Fields.value (ending.take 4) = endSignature) :
    lastEnd? (front ++ ending).length 0 none (front ++ ending) = some (front.length, ending) := by
  obtain ⟨other, passed⟩ :=
    lastEnd?_append (front ++ ending).length 0 none front ending
  have length : (front ++ ending).length = front.length + endSize := by
    rw [List.length_append, size]
  have starts : startsEnd (front ++ ending).length front.length ending = true := by
    simp [startsEnd, length, signed]
  rw [passed, Nat.zero_add]
  cases ending with
  | nil => cases size
  | cons byte rest =>
      simp only [lastEnd?, starts, if_true]
      exact lastEnd?_short (by omega) _ rest

variable {count size offset : Nat}

theorem length_endBytes (count size offset : Nat) : (endBytes count size offset).length = endSize := by
  rw [endBytes, Fields.length_write]
  rfl

/-- The end record that the packing writes. -/
def plainEnd (position count size offset : Nat) : EndRecord where
  position := position
  disk := 0
  directoryDisk := 0
  entryCount := count
  totalCount := count
  size := size
  offset := offset
  commentSize := 0

theorem endRecord_endBytes (front : List UInt8) (fewEntries : count < 0x10000)
    (smallSize : size < 0x100000000) (smallOffset : offset < 0x100000000) :
    endRecord (front ++ endBytes count size offset) =
      .ok (plainEnd front.length count size offset) := by
  have signed := Fields.value_take_write (by decide : endSignature < Nat.pow 0x100 4)
    [(2, 0), (2, 0), (2, count), (2, count), (4, size), (4, offset), (2, 0)] []
  rw [List.append_nil] at signed
  have found := lastEnd?_ending front _ (length_endBytes count size offset) signed
  have small : ∀ field ∈ [(4, endSignature), (2, 0), (2, 0), (2, count), (2, count), (4, size),
      (4, offset), (2, 0)], field.2 < Nat.pow 0x100 field.1 := by
    simp only [List.forall_mem_cons, List.not_mem_nil, false_imp_iff, implies_true, and_true]
    exact ⟨by decide, by decide, by decide, fewEntries, fewEntries, smallSize, smallOffset, by decide⟩
  have numbers : Fields.read? [4, 2, 2, 2, 2, 4, 4, 2] (endBytes count size offset ++ []) =
      some ([endSignature, 0, 0, count, count, size, offset, 0], []) := Fields.readWrite _ [] small
  rw [List.append_nil] at numbers
  have long : ¬ (front ++ endBytes count size offset).length < endSize := by
    rw [List.length_append, length_endBytes]
    omega
  rw [endRecord, if_neg long, found]
  simp only [numbers]
  rfl

/-- The bytes before the end record are taken for a locator if they end like this. -/
def EndsAsLocator (front : List UInt8) : Prop :=
  Fields.value ((front.drop (front.length - locatorSize)).take 4) = locatorSignature

instance (front : List UInt8) : Decidable (EndsAsLocator front) := inferInstanceAs (Decidable (_ = _))

/-- The last bytes before the end record decide whether there is a locator, if they are enough. -/
theorem locator?_isSome_iff {front : List UInt8} (room : locatorSize ≤ front.length) :
    (locator? (front ++ endBytes count size offset)
      (plainEnd front.length count size offset)).isSome ↔ EndsAsLocator front := by
  have length : (front ++ endBytes count size offset).length = front.length + endSize := by
    rw [List.length_append, length_endBytes]
  have distance : locatorSize + endSize + (plainEnd front.length count size offset).commentSize =
      locatorSize + endSize := rfl
  have window : (front ++ endBytes count size offset).drop
      ((front ++ endBytes count size offset).length - (locatorSize + endSize)) =
        front.drop (front.length - locatorSize) ++ endBytes count size offset := by
    rw [length, Nat.add_sub_add_right, List.drop_append_of_le_length (Nat.sub_le _ _)]
  have last : (front.drop (front.length - locatorSize)).length = 20 := by
    rw [List.length_drop, Nat.sub_sub_self room]
    rfl
  have numbers : ∃ disk wideOffset disks rest,
      Fields.read? [4, 4, 8, 4] (front.drop (front.length - locatorSize) ++ endBytes count size offset) =
        some ([Fields.value ((front.drop (front.length - locatorSize)).take 4), disk, wideOffset,
          disks], rest) := by
    rw [Fields.read?_cons, Fields.read?_cons, Fields.read?_cons, Fields.read?_cons,
      List.take_append_of_le_length (by rw [last]; decide)]
    simp only [List.length_drop, List.length_append, last]
    rw [if_pos (by omega), if_pos (by omega), if_pos (by omega), if_pos (by omega)]
    exact ⟨_, _, _, _, rfl⟩
  obtain ⟨disk, wideOffset, disks, rest, numbers⟩ := numbers
  rw [locator?, distance, if_neg (by omega), window]
  simp only [numbers, Option.isSome_ite]
  exact Iff.rfl

theorem locator?_eq_none {front : List UInt8} (plain : ¬ EndsAsLocator front) :
    locator? (front ++ endBytes count size offset) (plainEnd front.length count size offset) = none := by
  by_cases room : locatorSize ≤ front.length
  · rw [← Option.not_isSome_iff_eq_none, locator?_isSome_iff room]
    exact plain
  · have short : (front ++ endBytes count size offset).length < locatorSize + endSize := by
      rw [List.length_append, length_endBytes]
      omega
    exact if_pos short

/-- Without a locator the end record leads to the directory, which starts behind the files. -/
theorem extent_endBytes (count : Nat) {files directory : List UInt8}
    (plain : ¬ EndsAsLocator (files ++ directory)) :
    extent (files ++ directory ++ endBytes count directory.length files.length)
      (plainEnd (files ++ directory).length count directory.length files.length) =
        .ok ⟨0, files.length, count⟩ := by
  have origin : (plainEnd (files ++ directory).length count directory.length files.length).origin? =
      some 0 := by
    simp only [EndRecord.origin?, plainEnd, List.length_append, Nat.add_comm directory.length,
      Nat.le_refl, if_true, Option.some.injEq]
    omega
  rw [extent, locator?_eq_none plain]
  simp only [EndRecord.extent, origin]
  rfl

end Ending

end Archive
end ChipEight
