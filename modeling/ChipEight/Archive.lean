/-
This file reads archives of program images: a directory at the end of the data leads to the files.
-/
import ChipEight.Archive.CodePage
import ChipEight.Archive.Crc32
import ChipEight.Archive.EndRecord
import ChipEight.Archive.Inflate
import ChipEight.Rom

namespace ChipEight

namespace Archive

def entrySignature : Nat := 0x02014B50

def headerSignature : Nat := 0x04034B50

/-- An entry of the directory describes one file. -/
structure Entry where
  name : String
  encrypted : Bool
  method : Nat
  checksum : Nat
  packedSize : Nat
  /-- The header before the packed bytes starts here. -/
  headerStart : Nat
  deriving DecidableEq

/-- The widths of an entry of the directory, without its signature. -/
def entryWidths : List Nat := [2, 2, 2, 2, 2, 2, 4, 4, 4, 2, 2, 2, 2, 2, 4, 4]

/-- The lowest bit of the flags marks an encrypted file. -/
def isEncrypted (flags : Nat) : Bool := flags % 2 == 1

/-- The bit 11 of the flags marks a name in UTF-8. -/
def isUnicode (flags : Nat) : Bool := flags / 0x800 % 2 == 1

/-- The signature is checked before the rest of an entry is read. -/
def entry (origin : Nat) (data : List UInt8) : Except ArchiveFault (Entry × List UInt8) :=
  match Fields.read? [4] data with
  | some ([signature], data) =>
      if signature ≠ entrySignature then .error .badDirectory
      else
        match Fields.read? entryWidths data with
        | some ([_, _, flags, method, _, _, checksum, packedSize, _, nameSize, extraSize,
            commentSize, _, _, _, offset], data) =>
            match Fields.split? nameSize data with
            | none => .error (.input .endOfData)
            | some (name, data) =>
                match Fields.split? (extraSize + commentSize) data with
                | none => .error (.input .endOfData)
                | some (_, rest) =>
                    .ok ({ name := CodePage.decode (isUnicode flags) name
                           encrypted := isEncrypted flags
                           method := method
                           checksum := checksum
                           packedSize := packedSize
                           headerStart := offset + origin }, rest)
        | _ => .error (.input .endOfData)
  | _ => .error (.input .endOfData)

/-- The entries follow each other. -/
def entriesFrom (origin : Nat) : Nat → List UInt8 → Except ArchiveFault (List Entry)
  | 0, _ => .ok []
  | count + 1, data =>
      match entry origin data with
      | .error fault => .error fault
      | .ok (first, rest) =>
          match entriesFrom origin count rest with
          | .error fault => .error fault
          | .ok others => .ok (first :: others)

end Archive

/-- An archive is its data and the entries of its directory. -/
structure Archive where
  data : List UInt8
  entries : List Archive.Entry

namespace Archive

def ofData (data : List UInt8) : Except ArchiveFault Archive :=
  match endRecord data with
  | .error fault => .error fault
  | .ok record =>
      if !record.isOverflowing && record.disk != record.directoryDisk then .error .manyDisks
      else
        match extent data record with
        | .error fault => .error fault
        | .ok extent =>
            match entriesFrom extent.origin extent.count (data.drop extent.start) with
            | .error fault => .error fault
            | .ok entries => .ok ⟨data, entries⟩

/-- A directory can be opened like a file, so that it fails only as an archive. -/
def ofBytes (bytes : Except InputFault (List UInt8)) : Except LoadFault Archive :=
  match bytes with
  | .error .isDirectory => .error (.archive (.input .isDirectory))
  | .error fault => .error (.unreadable fault)
  | .ok data => (ofData data).mapError .archive

/-- A repeated name is listed once. -/
def names (archive : Archive) : List String :=
  (archive.entries.map Entry.name).eraseDups

/-- A repeated name means its last entry. -/
def entry? (archive : Archive) (name : String) : Option Entry :=
  archive.entries.reverse.find? fun entry => entry.name == name

/-- The packed bytes follow the header, whose name and extra bytes have sizes of their own. -/
def packed (archive : Archive) (entry : Entry) : Except ArchiveFault (List UInt8) :=
  match Fields.read? [4] (archive.data.drop entry.headerStart) with
  | some ([signature], data) =>
      if signature ≠ headerSignature then .error .badHeader
      else
        match Fields.read? [22, 2, 2] data with
        | some ([_, nameSize, extraSize], data) =>
            .ok ((data.drop (nameSize + extraSize)).take entry.packedSize)
        | _ => .error (.input .endOfData)
  | _ => .error (.input .endOfData)

/-- A method either stores the bytes as they are or packs them. -/
def unpack (method : Nat) (packed : List UInt8) : Except LoadFault (List UInt8) :=
  match method with
  | 0 => .ok packed
  | 8 => (Inflate.unpack packed).mapError .unreadable
  | _ => .error (.archive .unknownMethod)

/-- The checksum, but not the recorded size, has to match the unpacked bytes. -/
def file (archive : Archive) (entry : Entry) : Except LoadFault (List UInt8) :=
  if entry.encrypted then .error (.archive .encrypted)
  else
    match archive.packed entry with
    | .error fault => .error (.archive fault)
    | .ok packed =>
        match unpack entry.method packed with
        | .error fault => .error fault
        | .ok unpacked =>
            if (Crc32.ofBytes unpacked).toNat = entry.checksum then .ok unpacked
            else .error (.unreadable .checksum)

def contents (archive : Archive) (name : String) : Except LoadFault (List UInt8) :=
  match archive.entry? name with
  | none => .error (.archive .absent)
  | some entry => archive.file entry

/-- An archived file forms an image that has the name of its entry. -/
def rom (archive : Archive) (name : String) : Except LoadFault Rom :=
  match archive.contents name with
  | .error fault => .error fault
  | .ok data => Rom.ofData name data

end Archive
end ChipEight
