/-
This file shows that the entries of a packed archive are read back from its directory.
-/
import Mathlib.Tactic.IntervalCases
import ChipEight.Proofs.Archive.Ending

namespace ChipEight

namespace Archive

namespace Item

section Entry

variable (item : Item) (start : Nat)

/-- The entry of a packed file. -/
def entry : Entry where
  name := item.name
  encrypted := false
  method := 0
  checksum := (Crc32.ofBytes item.data).toNat
  packedSize := item.data.length
  headerStart := start

/-- The fields that header and entry share have this width. -/
theorem sharedFields_width : (item.sharedFields.map Prod.fst).sum = 26 := by
  simp only [sharedFields, List.map_cons, List.map_nil, List.sum_cons, List.sum_nil, Nat.reduceAdd]

theorem length_body : item.body.length = 30 + item.nameBytes.length + item.data.length := by
  rw [body, List.length_append, List.length_append, Fields.length_write, List.map_cons,
    List.sum_cons, sharedFields_width]

theorem isEncrypted_flags : isEncrypted item.flags = false := by
  rw [flags]
  split <;> rfl

/-- A name is marked as UTF-8 unless it reads the same in the code page. -/
theorem decode_nameBytes : CodePage.decode (isUnicode item.flags) item.nameBytes = item.name := by
  have readable : (isUnicode item.flags || CodePage.isAscii item.nameBytes) = true := by
    rw [flags]
    cases CodePage.isAscii item.nameBytes <;> rfl
  rw [CodePage.decode, if_pos readable]
  exact Utf8.decodeEncode item.name

end Entry

/-- The sizes of a file fit into the fields for them. -/
structure Fits (item : Item) : Prop where
  name : item.nameBytes.length < 0x10000
  data : item.data.length < 0x100000000

variable {item : Item} {start : Nat}

theorem Fits.shared_small (fits : item.Fits) :
    ∀ field ∈ item.sharedFields, field.2 < Nat.pow 0x100 field.1 := by
  have name := fits.name
  have data := fits.data
  have checksum := (Crc32.ofBytes item.data).toNat_lt
  have flags : item.flags ≤ 0x800 := by
    rw [Item.flags]
    split <;> decide
  have two : Nat.pow 0x100 2 = 0x10000 := rfl
  have four : Nat.pow 0x100 4 = 0x100000000 := rfl
  simp only [Item.sharedFields, List.forall_mem_cons, List.not_mem_nil, false_imp_iff, implies_true,
    and_true, two, four]
  omega

/-- An entry is read back, and the reading stops behind its name. -/
theorem Fits.entry_entryBytes (fits : item.Fits) (inside : start < 0x100000000) (rest : List UInt8) :
    Archive.entry 0 (item.entryBytes start ++ rest) = .ok (item.entry start, rest) := by
  let fields := (2, 0x032E) :: item.sharedFields ++
    [(2, 0), (2, 0), (2, 0), (4, 0x81A40000), (4, start)]
  have small : ∀ field ∈ fields, field.2 < Nat.pow 0x100 field.1 := by
    intro field member
    simp only [fields, List.cons_append, List.mem_cons, List.mem_append, List.not_mem_nil,
      or_false] at member
    obtain rfl | shared | rfl | rfl | rfl | rfl | rfl := member
    · decide
    · exact fits.shared_small field shared
    all_goals first | decide | exact inside
  have shape : item.entryBytes start ++ rest =
      Fields.write ((4, entrySignature) :: fields) ++ (item.nameBytes ++ rest) :=
    List.append_assoc _ _ _
  have signature := Fields.read?_first (by decide : entrySignature < Nat.pow 0x100 4) fields
    (item.nameBytes ++ rest)
  have numbers : Fields.read? entryWidths (Fields.write fields ++ (item.nameBytes ++ rest)) = _ :=
    Fields.readWrite fields (item.nameBytes ++ rest) small
  have name := Fields.splitAppend item.nameBytes rest
  rw [shape, Archive.entry, signature]
  simp only [numbers, ne_eq, not_true_eq_false, if_false]
  simp only [fields, sharedFields, List.cons_append, List.nil_append, List.map_cons, List.map_nil,
    name, Nat.add_zero, Fields.split?]
  rw [item.decode_nameBytes, item.isEncrypted_flags]
  rfl

section Locator

variable (item : Item)

/-- The fields at the end of an entry, which stand before its name. -/
def lastFields (start : Nat) : List (Nat × Nat) :=
  [(4, item.data.length), (2, item.nameBytes.length), (2, 0), (2, 0), (2, 0), (2, 0), (4, 0x81A40000),
    (4, start)]

/-- The last bytes of an entry with a short name begin inside fields that are no signature. -/
theorem value_lastFields {start : Nat} (short : item.nameBytes.length < 16) :
    Fields.value (((Fields.write (item.lastFields start)).drop (2 + item.nameBytes.length)).take 4) ≠
      locatorSignature := by
  have small (byte : UInt8) := byte.toNat_lt
  rw [lastFields]
  generalize item.nameBytes.length = length at short ⊢
  interval_cases length <;>
    simp only [Fields.write, Fields.bytes, List.cons_append, List.nil_append, Nat.reduceAdd,
      List.drop_succ_cons, List.drop_zero, List.take_succ_cons, List.take_zero, Fields.value,
      locatorSignature, UInt8.toNat_ofNat', Nat.reduceMod, Nat.reduceDiv, Nat.reducePow] <;>
    omega

/-- The bytes before the end record are no locator if the last name is short. -/
theorem not_endsAsLocator {start : Nat} (short : item.nameBytes.length < 16) (front : List UInt8) :
    ¬ EndsAsLocator (front ++ item.entryBytes start) := by
  let first := [(4, entrySignature), (2, 0x032E), (2, 20), (2, item.flags), (2, 0), (2, 0), (2, 0x21),
    (4, (Crc32.ofBytes item.data).toNat), (4, item.data.length)]
  have shape : front ++ item.entryBytes start = front ++ Fields.write first ++
      (Fields.write (item.lastFields start) ++ item.nameBytes) := by
    have split : item.entryBytes start =
        Fields.write (first ++ item.lastFields start) ++ item.nameBytes := rfl
    rw [split, Fields.write_append, List.append_assoc, List.append_assoc]
  have size : (Fields.write (item.lastFields start)).length = 22 := by
    rw [Fields.length_write]
    rfl
  have window : (front ++ item.entryBytes start).drop
      ((front ++ item.entryBytes start).length - locatorSize) =
        (Fields.write (item.lastFields start)).drop (2 + item.nameBytes.length) ++ item.nameBytes := by
    have place : (front ++ item.entryBytes start).length - locatorSize =
        (front ++ Fields.write first).length + (2 + item.nameBytes.length) := by
      simp only [shape, List.length_append, size, locatorSize]
      omega
    rw [place, shape, ← List.drop_drop, List.drop_left, List.drop_append_of_le_length (by omega)]
  rw [EndsAsLocator, window, List.take_append_of_le_length (by rw [List.length_drop, size]; omega)]
  exact item.value_lastFields short

end Locator

end Item

section Directory

variable {items : List Item}

/-- The entries of files that follow each other from the start on. -/
def packedEntries : Nat → List Item → List Entry
  | _, [] => []
  | start, item :: rest => item.entry start :: packedEntries (start + item.body.length) rest

theorem map_name_packedEntries (start : Nat) (items : List Item) :
    (packedEntries start items).map Entry.name = items.map Item.name := by
  induction items generalizing start with
  | nil => rfl
  | cons item rest inductionHypothesis =>
      rw [packedEntries, List.map_cons, inductionHypothesis]
      rfl

theorem bodies_cons (item : Item) (rest : List Item) :
    bodies (item :: rest) = item.body ++ bodies rest := rfl

theorem bodies_append (first second : List Item) :
    bodies (first ++ second) = bodies first ++ bodies second := List.flatMap_append

theorem directory_append (start : Nat) (first second : List Item) :
    directory start (first ++ second) =
      directory start first ++ directory (start + (bodies first).length) second := by
  induction first generalizing start with
  | nil => rfl
  | cons item rest inductionHypothesis =>
      rw [List.cons_append, directory, inductionHypothesis, directory, List.append_assoc, bodies_cons,
        List.length_append, Nat.add_assoc]

/-- Only a long last name can be taken for a locator. -/
theorem long_of_endsAsLocator (locator : EndsAsLocator (bodies items ++ directory 0 items)) :
    ∃ last, items.getLast? = some last ∧ 16 ≤ last.nameBytes.length := by
  obtain rfl | ⟨first, last, rfl⟩ := items.eq_nil_or_concat
  · exact absurd locator (by decide)
  · refine ⟨last, by simp, Nat.not_lt.mp fun short => ?_⟩
    rw [List.concat_eq_append, directory_append, directory, directory, List.append_nil,
      ← List.append_assoc] at locator
    exact last.not_endsAsLocator short _ locator

theorem entriesFrom_directory (fits : ∀ item ∈ items, item.Fits) (start : Nat)
    (inside : start + (bodies items).length < 0x100000000) (rest : List UInt8) :
    entriesFrom 0 items.length (directory start items ++ rest) = .ok (packedEntries start items) := by
  induction items generalizing start with
  | nil => rfl
  | cons item items inductionHypothesis =>
      rw [bodies_cons, List.length_append] at inside
      have first := (fits item List.mem_cons_self).entry_entryBytes
        (by omega : start < 0x100000000)
        (directory (start + item.body.length) items ++ rest)
      have others := inductionHypothesis (fun item member => fits item (List.mem_cons_of_mem _ member))
        (start + item.body.length) (by omega)
      rw [directory, List.append_assoc, List.length_cons, entriesFrom, first]
      simp only [others]
      rfl

theorem mem_packedEntries {entry : Entry} {start : Nat} :
    entry ∈ packedEntries start items ↔ ∃ before item after, items = before ++ item :: after ∧
      entry = item.entry (start + (bodies before).length) := by
  induction items generalizing start with
  | nil => simp [packedEntries]
  | cons first rest inductionHypothesis =>
      rw [packedEntries, List.mem_cons, inductionHypothesis]
      constructor
      · rintro (rfl | ⟨before, item, after, rfl, rfl⟩)
        · exact ⟨[], first, rest, rfl, rfl⟩
        · refine ⟨first :: before, item, after, rfl, ?_⟩
          rw [bodies_cons, List.length_append, Nat.add_assoc]
      · rintro ⟨before, item, after, shape, rfl⟩
        cases before with
        | nil =>
            obtain ⟨rfl, rfl⟩ := List.cons.inj shape
            exact .inl rfl
        | cons head before =>
            obtain ⟨rfl, rfl⟩ := List.cons.inj shape
            refine .inr ⟨before, item, after, rfl, ?_⟩
            rw [bodies_cons, List.length_append, Nat.add_assoc]

end Directory

section Packing

variable {items : List Item}

/-- The numbers of a packed archive fit into the fields for them. -/
structure Classic (items : List Item) : Prop where
  count : items.length < 0xFFFF
  names : ∀ item ∈ items, item.nameBytes.length < 0x10000
  size : (pack items).length < 0x100000000

theorem Classic.fits (classic : Classic items) : ∀ item ∈ items, item.Fits := by
  intro item member
  have body : item.body.length ≤ (bodies items).length := by
    obtain ⟨before, after, rfl⟩ := List.append_of_mem member
    rw [bodies_append, bodies_cons, List.length_append, List.length_append]
    omega
  have size := classic.size
  rw [pack, List.length_append, List.length_append] at size
  rw [item.length_body] at body
  exact ⟨classic.names item member, by omega⟩

/-- The end record of a packed archive. -/
def packedEnd (items : List Item) : EndRecord :=
  plainEnd (bodies items ++ directory 0 items).length items.length (directory 0 items).length
    (bodies items).length

/-- The directory of a packed archive stands behind all files. -/
def packedExtent (items : List Item) : Extent := ⟨0, (bodies items).length, items.length⟩

theorem extent_pack (plain : ¬ EndsAsLocator (bodies items ++ directory 0 items)) :
    extent (pack items) (packedEnd items) = .ok (packedExtent items) :=
  extent_endBytes items.length plain

theorem extent_of_locator {locator : Locator}
    (found : locator? (pack items) (packedEnd items) = some locator) :
    extent (pack items) (packedEnd items) = wideExtent (pack items) (packedEnd items) locator := by
  rw [extent, found]

/-- A long last name can hold a whole locator. -/
theorem exists_locator (taken : EndsAsLocator (bodies items ++ directory 0 items)) :
    ∃ locator, locator? (pack items) (packedEnd items) = some locator := by
  obtain ⟨last, found, long⟩ := long_of_endsAsLocator taken
  have room : locatorSize ≤ (bodies items ++ directory 0 items).length := by
    obtain ⟨front, rfl⟩ := List.getLast?_eq_some_iff.mp found
    have entry : (last.entryBytes (0 + (bodies front).length)).length =
        46 + last.nameBytes.length := by
      rw [Item.entryBytes, List.length_append, Fields.length_write, List.map_append, List.map_append,
        List.sum_append, List.sum_append, last.sharedFields_width]
      rfl
    rw [directory_append, directory, directory, List.append_nil, List.length_append,
      List.length_append, entry, locatorSize]
    omega
  exact Option.isSome_iff_exists.mp ((locator?_isSome_iff room).mpr taken)

theorem ofData_pack (classic : Classic items) :
    ofData (pack items) =
      match extent (pack items) (packedEnd items) with
      | .error fault => .error fault
      | .ok extent =>
          match entriesFrom extent.origin extent.count ((pack items).drop extent.start) with
          | .error fault => .error fault
          | .ok entries => .ok ⟨pack items, entries⟩ := by
  have count := classic.count
  have size := classic.size
  rw [pack, List.length_append, List.length_append] at size
  have record : endRecord (pack items) = .ok (packedEnd items) :=
    endRecord_endBytes (bodies items ++ directory 0 items) (by omega) (by omega) (by omega)
  rw [ofData]
  simp only [record]
  exact if_neg (by simp [packedEnd, plainEnd])

/-- The reader opens the archive if it is led to the directory, by whichever record. -/
theorem ofData_pack_located (classic : Classic items)
    (located : extent (pack items) (packedEnd items) = .ok (packedExtent items)) :
    ofData (pack items) = .ok ⟨pack items, packedEntries 0 items⟩ := by
  have size := classic.size
  rw [pack, List.length_append, List.length_append] at size
  have listed := entriesFrom_directory classic.fits 0 (by omega)
    (endBytes items.length (directory 0 items).length (bodies items).length)
  have place : (pack items).drop (bodies items).length = directory 0 items ++
      endBytes items.length (directory 0 items).length (bodies items).length := by
    rw [pack, List.append_assoc, List.drop_left' rfl]
  rw [ofData_pack classic, located]
  simp only [packedExtent, place, listed]

end Packing

end Archive
end ChipEight
