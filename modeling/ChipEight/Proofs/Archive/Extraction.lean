/-
This file shows that each file of a packed archive is taken out as it was packed, in any order of the
requests.
-/
import Mathlib.Data.List.Nodup
import ChipEight.Proofs.Archive.Directory
import ChipEight.Proofs.Bare.Archive
import ChipEight.Proofs.Image

namespace ChipEight

namespace Archive

section Files

variable {items : List Item} {item : Item}

/-- The packed bytes are found behind the header, wherever it stands. -/
theorem packed_entry (fits : item.Fits) (before after : List UInt8) (entries : List Entry) :
    (Archive.mk (before ++ (item.body ++ after)) entries).packed (item.entry before.length) =
      .ok item.data := by
  -- The reading skips all fields in front of the two sizes at once.
  let front := [(2, 20), (2, item.flags), (2, 0), (2, 0), (2, 0x21),
    (4, (Crc32.ofBytes item.data).toNat), (4, item.data.length), (4, item.data.length)]
  let sizes := [(2, item.nameBytes.length), (2, 0)]
  have front_length : (Fields.write front).length = 22 := by
    rw [Fields.length_write]
    rfl
  have shape : item.body ++ after = Fields.write ((4, headerSignature) :: (front ++ sizes)) ++
      (item.nameBytes ++ (item.data ++ after)) := by
    rw [Item.body, List.append_assoc, List.append_assoc]
    rfl
  have signature := Fields.read?_first (by decide : headerSignature < Nat.pow 0x100 4)
    (front ++ sizes) (item.nameBytes ++ (item.data ++ after))
  have numbers : Fields.read? [22, 2, 2] (Fields.write (front ++ sizes) ++
      (item.nameBytes ++ (item.data ++ after))) =
        some ([Fields.value (Fields.write front), item.nameBytes.length, 0],
          item.nameBytes ++ (item.data ++ after)) := by
    have small : ∀ field ∈ sizes, field.2 < Nat.pow 0x100 field.1 := fun field member =>
      fits.shared_small field (List.mem_append_right front member)
    have skipped := Fields.read?_skipped front sizes [2, 2] (item.nameBytes ++ (item.data ++ after))
    rw [front_length] at skipped
    rw [skipped, show Fields.read? [2, 2] _ = _ from Fields.readWrite sizes _ small]
    rfl
  rw [packed]
  simp only [Item.entry, List.drop_left]
  rw [shape, signature]
  simp only [numbers, ne_eq, not_true_eq_false, if_false, Nat.add_zero, List.drop_left, List.take_left]

theorem file_entry (fits : item.Fits) (before after : List UInt8) (entries : List Entry) :
    (Archive.mk (before ++ (item.body ++ after)) entries).file (item.entry before.length) =
      .ok item.data := by
  have plain : (item.entry before.length).encrypted = false := rfl
  have stored : unpack (item.entry before.length).method item.data = .ok item.data := rfl
  rw [file, plain, packed_entry fits]
  simp only [Bool.false_eq_true, if_false, stored]
  exact if_pos rfl

end Files

section Requests

variable {items : List Item}

/-- The archive that the reading of packed files opens. -/
def packedArchive (items : List Item) : Archive := ⟨pack items, packedEntries 0 items⟩

theorem names_packedArchive (distinct : (items.map Item.name).Nodup) :
    (packedArchive items).names.Perm (items.map Item.name) := by
  rw [names, packedArchive, map_name_packedEntries]
  exact (List.perm_ext_iff_of_nodup (nodup_eraseDups _) distinct).mpr fun _ => List.mem_eraseDups

/-- Distinct names lead to the entries of their own files. -/
theorem entry?_packedArchive (distinct : (items.map Item.name).Nodup) {entry : Entry}
    (member : entry ∈ packedEntries 0 items) :
    entry? (packedArchive items) entry.name = some entry := by
  have unique : ((packedEntries 0 items).map Entry.name).Nodup := by
    rwa [map_name_packedEntries]
  have member' : entry ∈ (packedEntries 0 items).reverse := List.mem_reverse.mpr member
  cases found : entry? (packedArchive items) entry.name with
  | none =>
      have missed := List.find?_eq_none.mp found entry member'
      simp at missed
  | some other =>
      have same : other.name = entry.name := by simpa using List.find?_some found
      have there : other ∈ packedEntries 0 items := List.mem_reverse.mp (List.mem_of_find?_eq_some found)
      rw [List.inj_on_of_nodup_map unique there member same]

theorem rom_of_mem (distinct : (items.map Item.name).Nodup) (classic : Classic items) {item : Item}
    (member : item ∈ items) :
    (packedArchive items).rom item.name = Rom.ofData item.name item.data := by
  obtain ⟨before, after, shape⟩ := List.append_of_mem member
  have listed : item.entry (bodies before).length ∈ packedEntries 0 items :=
    mem_packedEntries.mpr ⟨before, item, after, shape, by rw [Nat.zero_add]⟩
  have found : entry? (packedArchive items) item.name = some (item.entry (bodies before).length) :=
    entry?_packedArchive distinct listed
  have split : bodies items = bodies before ++ (item.body ++ bodies after) := by
    rw [shape, bodies_append, bodies_cons]
  have data : ∃ rest, pack items = bodies before ++ (item.body ++ rest) := by
    refine ⟨bodies after ++ directory 0 items ++
      endBytes items.length (directory 0 items).length (bodies items).length, ?_⟩
    rw [pack, split]
    simp only [List.append_assoc]
  have file : (packedArchive items).file (item.entry (bodies before).length) = .ok item.data := by
    obtain ⟨rest, data⟩ := data
    rw [packedArchive, data]
    exact file_entry (classic.fits item member) _ _ _
  rw [rom, contents]
  simp only [found, file]

theorem rom_of_not_mem {name : String} (unknown : name ∉ items.map Item.name) :
    (packedArchive items).rom name = .error (.archive .absent) := by
  have missed : entry? (packedArchive items) name = none := by
    unfold entry?
    rw [List.find?_eq_none]
    intro entry member
    have named : entry.name ∈ items.map Item.name :=
      map_name_packedEntries 0 items ▸ List.mem_map_of_mem (List.mem_reverse.mp member)
    simpa using fun same : entry.name = name => unknown (same ▸ named)
  rw [rom, contents]
  simp only [missed]

/-- A request for a packed name is answered with the image of its bytes, or with the reason why they
are no image. A request for another name is refused. -/
structure Answers (items : List Item) (name : String) (answer : Except LoadFault Rom) : Prop where
  judged (item : Item) : item ∈ items → item.name = name → answer = Rom.ofData name item.data
  image (item : Item) : item ∈ items → item.name = name → 1 ≤ item.data.length →
    item.data.length ≤ 3584 → ∃ rom, answer = .ok rom ∧ rom.name = name ∧ rom.data = item.data
  empty (item : Item) : item ∈ items → item.name = name → item.data.length = 0 →
    answer = .error (.empty name)
  large (item : Item) : item ∈ items → item.name = name → 3584 < item.data.length →
    answer = .error (.tooLarge item.data.length 3584)
  unknown : name ∉ items.map Item.name → answer = .error (.archive .absent)

theorem answers_rom (distinct : (items.map Item.name).Nodup) (classic : Classic items)
    (name : String) : Answers items name ((packedArchive items).rom name) := by
  have judged (item : Item) (member : item ∈ items) (same : item.name = name) :
      (packedArchive items).rom name = Rom.ofData name item.data := by
    rw [← same, rom_of_mem distinct classic member]
  constructor
  · exact judged
  · intro item member same filled fits
    have data := Rom.ofData_judged name item.data
    obtain ⟨rom, made⟩ := data.accepted.mpr ⟨filled, fits⟩
    exact ⟨rom, (judged item member same).trans made, data.kept rom made⟩
  · intro item member same empty
    exact (judged item member same).trans
      (((Rom.ofData_judged name item.data).refused _).mpr (.inl ⟨empty, rfl⟩))
  · intro item member same large
    exact (judged item member same).trans
      (((Rom.ofData_judged name item.data).refused _).mpr (.inr ⟨large, rfl⟩))
  · exact rom_of_not_mem

/-- The archive is opened, lists the packed names, and answers any sequence of requests, also on one
reader that is left at another place each time. -/
structure Extracts (items : List Item) (archive : Archive) : Prop where
  opened : ofBytes (.ok (pack items)) = .ok archive
  names : archive.names.Perm (items.map Item.name)
  answers (requests : List String) :
    List.Forall₂ (Answers items) requests (requests.map archive.rom)
  namesInPlace (place : Nat) :
    (Bare.OpenArchive.ofArchive archive place).names.Perm (items.map Item.name)
  answersInPlace (place : Nat) (requests : List String) :
    (Bare.OpenArchive.ofArchive archive place).roms requests = requests.map archive.rom

theorem extracts_packedArchive (distinct : (items.map Item.name).Nodup) (classic : Classic items)
    (located : extent (pack items) (packedEnd items) = .ok (packedExtent items)) :
    Extracts items (packedArchive items) where
  opened := by
    rw [ofBytes, ofData_pack_located classic located]
    rfl
  names := names_packedArchive distinct
  answers requests := by
    rw [List.forall₂_map_right_iff, List.forall₂_same]
    exact fun name _ => answers_rom distinct classic name
  namesInPlace place :=
    (Bare.OpenArchive.names_ofArchive (packedArchive items) place).trans
      (names_packedArchive distinct)
  answersInPlace place requests :=
    Bare.OpenArchive.roms_ofArchive (packedArchive items) place requests

/-- A locator can lead back to the directory, or to a fault that refuses the whole archive. -/
structure Follows (items : List Item) (locator : Locator) : Prop where
  back : wideExtent (pack items) (packedEnd items) locator = .ok (packedExtent items) →
    ∃ archive, Extracts items archive
  stopped (fault : ArchiveFault) : wideExtent (pack items) (packedEnd items) locator = .error fault →
    ofBytes (.ok (pack items)) = .error (.archive fault)

theorem follows_locator (distinct : (items.map Item.name).Nodup) (classic : Classic items)
    {locator : Locator} (found : locator? (pack items) (packedEnd items) = some locator) :
    Follows items locator where
  back led := ⟨packedArchive items,
    extracts_packedArchive distinct classic ((extent_of_locator found).trans led)⟩
  stopped fault led := by
    rw [ofBytes, ofData_pack classic, extent_of_locator found, led]
    rfl

/-- The name of this file leads to a wide end record in its bytes, and from there to the directory. -/
example :
    let name := "PK\x06\x07\x00\x00\x00\x002\x00\x00\x00\x00\x00\x00\x00\x01\x00\x00\x00"
    let wide := Fields.write [(4, wideSignature), (8, 44), (2, 20), (2, 20), (4, 0), (4, 0), (8, 1),
      (8, 1), (8, 66), (8, 106)]
    EndsAsLocator (bodies [⟨name, wide⟩] ++ directory 0 [⟨name, wide⟩]) ∧
      extent (pack [⟨name, wide⟩]) (packedEnd [⟨name, wide⟩]) = .ok (packedExtent [⟨name, wide⟩]) := by
  decide +kernel

/-- Files of distinct names are taken out of an archive as they were packed, in any order of requests,
unless the end of the last name is taken for a locator. Only a last name of at least 16 bytes is, and
then the files are still taken out if the locator leads back to the directory. -/
theorem files_extracted (items : List Item) (distinct : (items.map Item.name).Nodup)
    (classic : Classic items) :
    (¬ EndsAsLocator (bodies items ++ directory 0 items) → ∃ archive, Extracts items archive) ∧
      (EndsAsLocator (bodies items ++ directory 0 items) →
        (∃ last, items.getLast? = some last ∧ 16 ≤ last.nameBytes.length) ∧
          ∃ locator, locator? (pack items) (packedEnd items) = some locator ∧
            Follows items locator) := by
  refine ⟨fun plain => ?_, fun taken => ⟨long_of_endsAsLocator taken, ?_⟩⟩
  · exact ⟨packedArchive items, extracts_packedArchive distinct classic (extent_pack plain)⟩
  · obtain ⟨locator, found⟩ := exists_locator taken
    exact ⟨locator, found, follows_locator distinct classic found⟩

/-- A file without bytes, and a file whose bytes start like an end record, do not disturb the others. -/
theorem files_extracted_shuffled :
    let items : List Item := [⟨"PONG", [0x6A, 0x02]⟩, ⟨"É", []⟩, ⟨"END", [0x50, 0x4B, 0x05, 0x06]⟩]
    (items.map Item.name).Nodup ∧ Classic items ∧
      ¬ EndsAsLocator (bodies items ++ directory 0 items) ∧
      ∃ archive, ofBytes (.ok (pack items)) = .ok archive ∧
        archive.names.Perm ["PONG", "É", "END"] ∧
        ∀ place, ∃ pong finish, pong.data = [0x6A, 0x02] ∧ finish.data = [0x50, 0x4B, 0x05, 0x06] ∧
          (Bare.OpenArchive.ofArchive archive place).roms ["END", "TETRIS", "É", "END", "PONG"] =
            [.ok finish, .error (.archive .absent), .error (.empty "É"), .ok finish, .ok pong] := by
  intro items
  have distinct : (items.map Item.name).Nodup := by decide
  have classic : Classic items := ⟨by decide, by decide +kernel, by decide +kernel⟩
  have plain : ¬ EndsAsLocator (bodies items ++ directory 0 items) := by decide +kernel
  obtain ⟨archive, extracts⟩ := (files_extracted items distinct classic).1 plain
  refine ⟨distinct, classic, plain, archive, extracts.opened, extracts.names, fun place => ?_⟩
  have answered := extracts.answers ["END", "TETRIS", "É", "END", "PONG"]
  simp only [List.map_cons, List.forall₂_cons] at answered
  obtain ⟨forEnd, forTetris, forEmpty, -, forPong, -⟩ := answered
  obtain ⟨finish, madeFinish, -, finishData⟩ :=
    forEnd.image ⟨"END", [0x50, 0x4B, 0x05, 0x06]⟩ (by simp [items]) rfl (by decide) (by decide)
  obtain ⟨pong, madePong, -, pongData⟩ :=
    forPong.image ⟨"PONG", [0x6A, 0x02]⟩ (by simp [items]) rfl (by decide) (by decide)
  have absent := forTetris.unknown (by decide)
  have empty := forEmpty.empty ⟨"É", []⟩ (by simp [items]) rfl rfl
  refine ⟨pong, finish, pongData, finishData, ?_⟩
  rw [extracts.answersInPlace]
  simp only [List.map_cons, List.map_nil, madeFinish, absent, empty, madePong]

/-- The name of this single file is taken for a locator, and its archive is refused as spread over
several disks. -/
theorem files_extracted_refused :
    let items : List Item := [⟨"PK\x06\x07GAMES FOR WINTER", [0x12, 0x00]⟩]
    (items.map Item.name).Nodup ∧ Classic items ∧
      EndsAsLocator (bodies items ++ directory 0 items) ∧
      ofBytes (.ok (pack items)) = .error (.archive .manyDisks) := by
  intro items
  have classic : Classic items := ⟨by decide, by decide +kernel, by decide +kernel⟩
  have refused : extent (pack items) (packedEnd items) = .error .manyDisks := by decide +kernel
  refine ⟨by decide, classic, by decide +kernel, ?_⟩
  rw [ofBytes, ofData_pack classic, refused]
  rfl

end Requests

end Archive
end ChipEight
