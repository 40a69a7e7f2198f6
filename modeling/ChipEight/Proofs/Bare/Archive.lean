/-
This file shows that an archive answers every request alike, wherever its shared reader was left.
-/
import Mathlib.Data.List.Induction
import ChipEight.Bare.Archive
import ChipEight.Proofs.Archive.Fields

namespace ChipEight

namespace Archive

theorem nodup_eraseDups (names : List String) : names.eraseDups.Nodup := by
  induction size : names.length using Nat.strongRecOn generalizing names with
  | ind count inductionHypothesis =>
      cases names with
      | nil => exact List.nodup_nil
      | cons name rest =>
          have shorter : (rest.filter fun other => !other == name).length < count := by
            have := List.length_filter_le (fun other => !other == name) rest
            rw [← size, List.length_cons]
            omega
          rw [List.eraseDups_cons, List.nodup_cons]
          refine ⟨?_, inductionHypothesis _ shorter _ rfl⟩
          simp [List.mem_eraseDups]

end Archive

namespace Bare

namespace Reader

section Reading

variable {data : List UInt8} {place width : Nat}

/-- A number takes its bytes from the reader. -/
theorem number_long (long : width ≤ (data.drop place).length) :
    number width ⟨data, place⟩ =
      .ok (Fields.value ((data.drop place).take width)) ⟨data, place + width⟩ := by
  have split := (Fields.split?_eq width (data.drop place)).trans (if_pos long)
  simp only [number, exactly, bind_apply, get_apply, split]
  rfl

theorem number_short (short : ¬ width ≤ (data.drop place).length) :
    number width ⟨data, place⟩ = .error (.archive (.input .endOfData)) ⟨data, place⟩ := by
  have split := (Fields.split?_eq width (data.drop place)).trans (if_neg short)
  simp only [number, exactly, bind_apply, get_apply, split]
  rfl

end Reading

section Files

variable (archive : Archive) (entry : Archive.Entry) (place : Nat)

/-- The reader is sent to the packed bytes, or fails like the search for them. -/
theorem seekPacked_apply :
    (∃ after, seekPacked entry ⟨archive.data, place⟩ = .ok ⟨⟩ ⟨archive.data, after⟩ ∧
      archive.packed entry = .ok ((archive.data.drop after).take entry.packedSize)) ∨
    ∃ after fault, seekPacked entry ⟨archive.data, place⟩ = .error (.archive fault) ⟨archive.data, after⟩ ∧
      archive.packed entry = .error fault := by
  -- The data is too short for a number either at the same place on both sides or on neither.
  simp only [seekPacked, bind_apply, seek, modify_apply, Archive.packed, Fields.read?_cons]
  by_cases four : 4 ≤ (archive.data.drop entry.headerStart).length
  · simp only [number_long four, if_pos four, Fields.read?, Option.map_some, ite_run]
    by_cases signed :
        Fields.value ((archive.data.drop entry.headerStart).take 4) = Archive.headerSignature
    · simp only [signed, ne_eq, not_true_eq_false, if_false, bind_apply, skip, modify_apply,
        List.drop_drop]
      by_cases first : 2 ≤ (archive.data.drop (entry.headerStart + 4 + 22)).length
      · have skipped : 22 ≤ (archive.data.drop (entry.headerStart + 4)).length := by
          rw [List.length_drop] at first ⊢
          omega
        simp only [number_long first, if_pos first, if_pos skipped]
        by_cases second : 2 ≤ (archive.data.drop (entry.headerStart + 4 + 22 + 2)).length
        · simp only [number_long second, if_pos second, Option.map_some]
          refine .inl ⟨_, rfl, ?_⟩
          rw [List.drop_drop]
          simp only [headerSize, Nat.add_assoc, Nat.reduceAdd]
        · simp only [number_short second, if_neg second, Option.map_none]
          exact .inr ⟨_, _, rfl, rfl⟩
      · simp only [number_short first, if_neg first, Option.map_none, ite_self]
        exact .inr ⟨_, _, rfl, rfl⟩
    · exact .inr ⟨_, .badHeader, if_pos signed, if_pos signed⟩
  · rw [number_short four, if_neg four]
    exact .inr ⟨_, _, rfl, rfl⟩

/-- The file is read to its end, or the reading fails for the same reason. -/
theorem file_apply :
    (∃ after bytes, file entry ⟨archive.data, place⟩ = .ok bytes ⟨archive.data, after⟩ ∧
      archive.file entry = .ok bytes) ∨
    ∃ after fault, file entry ⟨archive.data, place⟩ = .error fault ⟨archive.data, after⟩ ∧
      archive.file entry = .error fault := by
  rw [file, Archive.file, ite_run]
  by_cases encrypted : entry.encrypted = true
  · rw [if_pos encrypted, if_pos encrypted]
    exact .inr ⟨_, _, rfl, rfl⟩
  rw [if_neg encrypted, if_neg encrypted, bind_apply]
  obtain ⟨after, sent, packed⟩ | ⟨after, fault, sent, packed⟩ := seekPacked_apply archive entry place
  · simp only [sent, packed, bind_apply, atMost, get_apply, set_apply, pure_apply]
    cases Archive.unpack entry.method ((archive.data.drop after).take entry.packedSize) with
    | error fault => exact .inr ⟨_, _, rfl, rfl⟩
    | ok unpacked =>
        by_cases checked : (Crc32.ofBytes unpacked).toNat = entry.checksum
        · exact .inl ⟨_, unpacked, (ite_run _ _ _ _).trans (if_pos checked), if_pos checked⟩
        · exact .inr ⟨_, _, (ite_run _ _ _ _).trans (if_neg checked), if_neg checked⟩
  · rw [sent, packed]
    exact .inr ⟨_, _, rfl, rfl⟩

end Files

end Reader

namespace OpenArchive

section Requests

/-- The table leads to the last entry of a name. -/
theorem number_concat (entries : List Archive.Entry) (last : Archive.Entry) :
    number (entries ++ [last]) = (number entries).insert last.name entries.length := by
  rw [number, List.zipIdx_append, List.foldl_append]
  simp [number]

theorem lt_of_getElem?_number {entries : List Archive.Entry} {name : String} {place : Nat}
    (found : (number entries)[name]? = some place) : place < entries.length := by
  induction entries using List.reverseRecOn with
  | nil => simp [number] at found
  | append_singleton entries last inductionHypothesis =>
      rw [number_concat, Std.HashMap.getElem?_insert] at found
      rw [List.length_append, List.length_singleton]
      split at found
      · obtain ⟨⟩ := found
        omega
      · have := inductionHypothesis found
        omega

theorem getElem?_number (entries : List Archive.Entry) (name : String) :
    ((number entries)[name]?.bind fun place => entries[place]?) =
      entries.reverse.find? fun entry => entry.name == name := by
  induction entries using List.reverseRecOn with
  | nil => simp [number]
  | append_singleton entries last inductionHypothesis =>
      rw [number_concat, Std.HashMap.getElem?_insert, List.reverse_append, List.reverse_singleton,
        List.singleton_append, List.find?_cons, ← inductionHypothesis]
      cases same : last.name == name with
      | true => simp
      | false =>
          cases found : (number entries)[name]? with
          | none => rfl
          | some place => exact List.getElem?_append_left (lt_of_getElem?_number found)

theorem mem_number {entries : List Archive.Entry} {name : String} :
    name ∈ number entries ↔ name ∈ entries.map Archive.Entry.name := by
  induction entries using List.reverseRecOn with
  | nil => simp [number]
  | append_singleton entries last inductionHypothesis =>
      rw [number_concat, Std.HashMap.mem_insert, inductionHypothesis, List.map_append,
        List.mem_append, List.map_singleton, List.mem_singleton, beq_iff_eq, or_comm, eq_comm]

variable (archive : Archive) (place : Nat)

theorem find?_ofArchive (name : String) : (ofArchive archive place).find? name = archive.entry? name := by
  unfold Archive.entry?
  rw [← getElem?_number]
  simp [find?, ofArchive]

/-- A request is answered alike from every place, and leaves the rest of the archive as it is. -/
theorem rom_ofArchive (name : String) : ∃ after,
    (ofArchive archive place).rom name = (archive.rom name, ofArchive archive after) := by
  rw [rom, find?_ofArchive, Archive.rom, Archive.contents]
  cases archive.entry? name with
  | none => exact ⟨place, rfl⟩
  | some entry =>
      obtain ⟨after, bytes, read, file⟩ | ⟨after, fault, read, file⟩ :=
        Reader.file_apply archive entry place
      · exact ⟨after, by simp only [ofArchive, read, file]⟩
      · exact ⟨after, by simp only [ofArchive, read, file]⟩

/-- No request changes the answer to a later one. -/
theorem roms_ofArchive (requests : List String) :
    (ofArchive archive place).roms requests = requests.map archive.rom := by
  induction requests generalizing place with
  | nil => rfl
  | cons name rest inductionHypothesis =>
      obtain ⟨after, answered⟩ := rom_ofArchive archive place name
      rw [roms, answered, inductionHypothesis, List.map_cons]

/-- The table lists each name once. -/
theorem names_ofArchive : (ofArchive archive place).names.Perm archive.names := by
  refine (List.perm_ext_iff_of_nodup Std.HashMap.nodup_keys (Archive.nodup_eraseDups _)).mpr fun name => ?_
  rw [Std.HashMap.mem_keys, ofArchive, mem_number, List.mem_eraseDups]

end Requests

end OpenArchive

end Bare

end ChipEight
