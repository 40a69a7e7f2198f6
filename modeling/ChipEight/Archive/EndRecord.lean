/-
This file finds the directory of an archive: the end record leads to it, or a wide end record that a
locator leads to.
-/
import ChipEight.Archive.Fault
import ChipEight.Archive.Fields

namespace ChipEight.Archive

def endSignature : Nat := 0x06054B50

/-- The end record names the extent of the directory. -/
structure EndRecord where
  /-- The record starts here. -/
  position : Nat
  disk : Nat
  directoryDisk : Nat
  entryCount : Nat
  totalCount : Nat
  size : Nat
  offset : Nat
  commentSize : Nat

/-- The end record has this size without its comment. -/
def endSize : Nat := 22

/-- A comment has at most this size. -/
def commentLimit : Nat := 0xFFFF

/-- The suffix has room for the record, does not reach further back than the longest comment, and
starts with the signature. -/
def startsEnd (length position : Nat) (suffix : List UInt8) : Bool :=
  decide (position + endSize ≤ length) && decide (length ≤ position + endSize + commentLimit) &&
    Fields.value (suffix.take 4) == endSignature

/-- The last suffix that can be the end record is taken for it. -/
def lastEnd? (length : Nat) :
    Nat → Option (Nat × List UInt8) → List UInt8 → Option (Nat × List UInt8)
  | _, found, [] => found
  | position, found, byte :: rest =>
      let suffix := byte :: rest
      lastEnd? length (position + 1)
        (if startsEnd length position suffix then some (position, suffix) else found) rest

/-- The record is complete only if its comment is. -/
def endRecord (data : List UInt8) : Except ArchiveFault EndRecord :=
  if data.length < endSize then .error .tooShort
  else
    match lastEnd? data.length 0 none data with
    | none => .error .noEnd
    | some (position, suffix) =>
        match Fields.read? [4, 2, 2, 2, 2, 4, 4, 2] suffix with
        | some ([_, disk, directoryDisk, entryCount, totalCount, size, offset, comment], rest) =>
            if rest.length < comment then .error (.input .endOfData)
            else .ok ⟨position, disk, directoryDisk, entryCount, totalCount, size, offset, comment⟩
        | _ => .error (.input .endOfData)

/-- A field with all bits set says that its number stands elsewhere. -/
def EndRecord.isOverflowing (record : EndRecord) : Bool :=
  record.disk == 0xFFFF || record.directoryDisk == 0xFFFF || record.entryCount == 0xFFFF ||
    record.totalCount == 0xFFFF || record.size == 0xFFFFFFFF || record.offset == 0xFFFFFFFF

/-- The archive starts where its directory would fit between its offset and the end record, so
bytes may stand before it. -/
def EndRecord.origin? (record : EndRecord) : Option Nat :=
  if record.size + record.offset ≤ record.position then
    some (record.position - record.size - record.offset)
  else none

/-- The extent of a directory: the archive starts at the origin, and the entries at the start. -/
structure Extent where
  origin : Nat
  start : Nat
  count : Nat
  deriving DecidableEq

def EndRecord.extent (record : EndRecord) : Except ArchiveFault Extent :=
  match record.origin? with
  | none => .error .badExtent
  | some origin => .ok ⟨origin, record.offset + origin, record.entryCount⟩

def locatorSignature : Nat := 0x07064B50

/-- A locator leads to a wide end record, whose numbers have room for larger archives. -/
structure Locator where
  disk : Nat
  wideOffset : Nat

/-- A locator has this size. -/
def locatorSize : Nat := 20

/-- The bytes before the end record are a locator as soon as they start with its signature, whether
the end record needs one or not. -/
def locator? (data : List UInt8) (record : EndRecord) : Option Locator :=
  let distance := locatorSize + endSize + record.commentSize
  if data.length < distance then none
  else
    match Fields.read? [4, 4, 8, 4] (data.drop (data.length - distance)) with
    | some ([signature, disk, wideOffset, _], _) =>
        if signature = locatorSignature then some ⟨disk, wideOffset⟩ else none
    | _ => none

def wideSignature : Nat := 0x06064B50

/-- A wide end record and a locator together have at least this size. -/
def wideSize : Nat := 60

/-- The data is searched from the given position on, which counts the places to look at. -/
def firstWide? : Nat → Nat → List UInt8 → Option (Nat × List UInt8)
  | 0, _, _ => none
  | count + 1, position, data =>
      if Fields.value (data.take 4) = wideSignature then some (position, data)
      else firstWide? count (position + 1) data.tail

/-- The numbers of the host end here. -/
def offsetLimit : Nat := 0x10000000000000000

/-- Bytes before the archive move the wide end record away from its offset, so it is searched from
there on. -/
def wideExtent (data : List UInt8) (record : EndRecord) (locator : Locator) :
    Except ArchiveFault Extent :=
  if !record.isOverflowing && record.disk != locator.disk then .error .manyDisks
  else if record.position < wideSize then .error .noWideRoom
  else
    match firstWide? (record.position - wideSize + 1 - locator.wideOffset) locator.wideOffset
      (data.drop locator.wideOffset) with
    | none => .error .noWideEnd
    | some (position, suffix) =>
        match Fields.read? [4, 8, 2, 2, 4, 4, 8, 8, 8, 8] suffix with
        | some ([_, _, _, _, disk, directoryDisk, _, count, _, offset], _) =>
            let origin := position - locator.wideOffset
            if disk ≠ directoryDisk then .error .manyDisks
            else if offset + origin < offsetLimit then .ok ⟨origin, offset + origin, count⟩
            else .error .badExtent
        | _ => .error (.input .endOfData)

def extent (data : List UInt8) (record : EndRecord) : Except ArchiveFault Extent :=
  match locator? data record with
  | none => record.extent
  | some locator => wideExtent data record locator

end ChipEight.Archive
