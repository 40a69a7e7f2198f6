/-
This file names the ways in which reading bytes can fail, and their wording.
-/

namespace ChipEight

/-- An input fault concerns a file or a stream of bytes. -/
inductive InputFault where
  | notFound
  | notDirectory
  | isDirectory
  | nameTooLong
  /-- A path cannot hold the byte zero. -/
  | zeroByte
  /-- The data ends before the requested bytes. -/
  | endOfData
  /-- The bytes do not have the recorded checksum. -/
  | checksum
  /-- The compressed bytes are not well formed. -/
  | corrupt
  /-- The compressed bytes are well formed as far as they go, but their end is missing. -/
  | incomplete
  /-- The system describes any other failure. -/
  | other (description : String)
  deriving DecidableEq, Repr

def InputFault.message : InputFault → String
  | .notFound => "No such file or directory (os error 2)"
  | .notDirectory => "Not a directory (os error 20)"
  | .isDirectory => "Is a directory (os error 21)"
  | .nameTooLong => "File name too long (os error 36)"
  | .zeroByte => "file name contained an unexpected NUL byte"
  | .endOfData => "failed to fill whole buffer"
  | .checksum => "Invalid checksum"
  | .corrupt => "corrupt deflate stream"
  | .incomplete => "incomplete deflate stream"
  | .other description => description

end ChipEight
