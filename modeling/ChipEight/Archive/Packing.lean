/-
This file packs files into an archive without compressing them.
-/
import ChipEight.Archive

namespace ChipEight.Archive

/-- A file to be packed has a name and its bytes. -/
structure Item where
  name : String
  data : List UInt8

namespace Item

def nameBytes (item : Item) : List UInt8 :=
  item.name.toUTF8.data.toList

/-- A name beyond ASCII is marked as UTF-8. -/
def flags (item : Item) : Nat :=
  if CodePage.isAscii item.nameBytes then 0 else 0x800

/-- The fields that the header and the entry share: the version that reads the archive, the flags,
the method, the earliest time and date, the checksum and the sizes. -/
def sharedFields (item : Item) : List (Nat × Nat) :=
  [(2, 20), (2, item.flags), (2, 0), (2, 0), (2, 0x21),
   (4, (Crc32.ofBytes item.data).toNat), (4, item.data.length), (4, item.data.length),
   (2, item.nameBytes.length), (2, 0)]

/-- The bytes of a file follow its header. -/
def body (item : Item) : List UInt8 :=
  Fields.write ((4, headerSignature) :: item.sharedFields) ++ item.nameBytes ++ item.data

/-- The entry says where the header starts. -/
def entryBytes (item : Item) (start : Nat) : List UInt8 :=
  Fields.write ([(4, entrySignature), (2, 0x032E)] ++ item.sharedFields ++
    [(2, 0), (2, 0), (2, 0), (4, 0x81A40000), (4, start)]) ++ item.nameBytes

end Item

def bodies (items : List Item) : List UInt8 :=
  items.flatMap Item.body

/-- Each header starts behind the bytes of the files before it. -/
def directory : Nat → List Item → List UInt8
  | _, [] => []
  | start, item :: rest => item.entryBytes start ++ directory (start + item.body.length) rest

def endBytes (count size offset : Nat) : List UInt8 :=
  Fields.write [(4, endSignature), (2, 0), (2, 0), (2, count), (2, count), (4, size), (4, offset),
    (2, 0)]

/-- The files come first, then the directory, then the end record. -/
def pack (items : List Item) : List UInt8 :=
  bodies items ++ directory 0 items ++
    endBytes items.length (directory 0 items).length (bodies items).length

end ChipEight.Archive
