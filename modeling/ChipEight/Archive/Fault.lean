/-
This file names the ways in which an archive can be unfit, and their wording.
-/
import ChipEight.InputFault

namespace ChipEight

/-- An archive fault concerns the structure of an archive. -/
inductive ArchiveFault where
  | input (fault : InputFault)
  /-- The data is shorter than any archive. -/
  | tooShort
  /-- The record that ends an archive is missing. -/
  | noEnd
  /-- The directory would start before the data. -/
  | badExtent
  /-- A locator stands where no wide end record fits before it. -/
  | noWideRoom
  /-- The wide end record that a locator leads to is missing. -/
  | noWideEnd
  /-- An entry of the directory lacks its signature. -/
  | badDirectory
  /-- The header before the bytes of an entry lacks its signature. -/
  | badHeader
  /-- The archive is spread over several disks. -/
  | manyDisks
  /-- The entry needs a password. -/
  | encrypted
  /-- The entry uses an unknown compression. -/
  | unknownMethod
  /-- The archive has no entry of this name. -/
  | absent
  deriving DecidableEq, Repr

def ArchiveFault.message : ArchiveFault → String
  | .input fault => fault.message
  | .tooShort => "invalid Zip archive: Invalid zip header"
  | .noEnd => "invalid Zip archive: Could not find central directory end"
  | .badExtent => "invalid Zip archive: Invalid central directory size or offset"
  | .noWideRoom => "invalid Zip archive: File cannot contain ZIP64 central directory end"
  | .noWideEnd => "invalid Zip archive: Could not find ZIP64 central directory end"
  | .badDirectory => "invalid Zip archive: Invalid Central Directory header"
  | .badHeader => "invalid Zip archive: Invalid local file header"
  | .manyDisks => "unsupported Zip archive: Support for multi-disk files is not implemented"
  | .encrypted => "unsupported Zip archive: Password required to decrypt file"
  | .unknownMethod => "unsupported Zip archive: Compression method not supported"
  | .absent => "specified file not found in archive"

/-- Only a failed read has a cause of its own. -/
def ArchiveFault.causes : ArchiveFault → List String
  | .input fault => [fault.message]
  | .tooShort | .noEnd | .badExtent | .noWideRoom | .noWideEnd | .badDirectory | .badHeader
  | .manyDisks | .encrypted | .unknownMethod | .absent => []

end ChipEight
