/-
This file takes files out of an archive in place. All requests share one reader, and each request
leaves it at another place.
-/
import Mathlib.Data.List.Basic
import ChipEight.Archive
import ChipEight.Bare

namespace ChipEight.Bare

/-- A reader keeps its data and the place of the next byte. -/
structure Reader where
  data : List UInt8
  place : Nat

/-- A reading moves the reader, also if it fails later on. -/
abbrev Reading := EStateM LoadFault Reader

namespace Reader

/-- A reader can be sent past the end of its data. -/
def seek (place : Nat) : Reading Unit :=
  modify fun reader => { reader with place := place }

def skip (count : Nat) : Reading Unit :=
  modify fun reader => { reader with place := reader.place + count }

/-- A reading fails without all of its bytes. -/
def exactly (count : Nat) : Reading (List UInt8) := do
  let reader ← get
  match Fields.split? count (reader.data.drop reader.place) with
  | none => throw (.archive (.input .endOfData))
  | some (front, _) =>
      set { reader with place := reader.place + count }
      return front

/-- A reading of the rest ends at its limit. -/
def atMost (limit : Nat) : Reading (List UInt8) := do
  let reader ← get
  let front := (reader.data.drop reader.place).take limit
  set { reader with place := reader.place + front.length }
  return front

def number (width : Nat) : Reading Nat := do
  let bytes ← exactly width
  return Fields.value bytes

/-- The header has this size without its name and its extra bytes. -/
def headerSize : Nat := 30

/-- The header of the entry leads to its packed bytes. -/
def seekPacked (entry : Archive.Entry) : Reading Unit := do
  seek entry.headerStart
  let signature ← number 4
  if signature ≠ Archive.headerSignature then
    throw (.archive .badHeader)
  else
    skip 22
    let nameSize ← number 2
    let extraSize ← number 2
    seek (entry.headerStart + headerSize + nameSize + extraSize)

/-- The checksum is compared after the last byte. -/
def file (entry : Archive.Entry) : Reading (List UInt8) := do
  if entry.encrypted then
    throw (.archive .encrypted)
  else
    seekPacked entry
    let packed ← atMost entry.packedSize
    match Archive.unpack entry.method packed with
    | .error fault => throw fault
    | .ok unpacked =>
        if (Crc32.ofBytes unpacked).toNat = entry.checksum then return unpacked
        else throw (.unreadable .checksum)

end Reader

/-- An open archive keeps its reader, the entries of its directory, and a table of their names. -/
structure OpenArchive where
  reader : Reader
  entries : Array Archive.Entry
  table : Std.HashMap String Nat

namespace OpenArchive

/-- A later entry takes over the name of an earlier one. -/
def number (entries : List Archive.Entry) : Std.HashMap String Nat :=
  entries.zipIdx.foldl (fun table numbered => table.insert numbered.1.name numbered.2) ∅

/-- The directory has been read, and the reader has been left at the place. -/
def ofArchive (archive : Archive) (place : Nat) : OpenArchive where
  reader := ⟨archive.data, place⟩
  entries := archive.entries.toArray
  table := number archive.entries

def names (archive : OpenArchive) : List String := archive.table.keys

def find? (archive : OpenArchive) (name : String) : Option Archive.Entry :=
  archive.table[name]?.bind fun place => archive.entries[place]?

/-- A request answers with an image or a fault, and leaves the reader somewhere. -/
def rom (archive : OpenArchive) (name : String) : Except LoadFault Rom × OpenArchive :=
  match archive.find? name with
  | none => (.error (.archive .absent), archive)
  | some entry =>
      match Reader.file entry archive.reader with
      | .error fault reader => (.error fault, { archive with reader := reader })
      | .ok data reader => (Rom.ofData name data, { archive with reader := reader })

/-- The requests follow each other on the same reader. -/
def roms (archive : OpenArchive) : List String → List (Except LoadFault Rom)
  | [] => []
  | name :: rest => (archive.rom name).1 :: roms (archive.rom name).2 rest

end OpenArchive

end ChipEight.Bare
