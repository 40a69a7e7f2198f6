/-
This file computes the checksum of an archived file.
-/

namespace ChipEight.Crc32

/-- The polynomial is written with its lowest power in the highest bit. -/
def polynomial : UInt32 := 0xEDB88320

/-- A bit leaves at the right and takes the polynomial with it. -/
def shift (remainder : UInt32) : UInt32 :=
  if remainder &&& 1 = 1 then remainder >>> 1 ^^^ polynomial else remainder >>> 1

def shifts (remainder : UInt32) : Nat → UInt32
  | 0 => remainder
  | count + 1 => shifts (shift remainder) count

/-- A byte enters at the right. -/
def feed (remainder : UInt32) (byte : UInt8) : UInt32 :=
  shifts (remainder ^^^ byte.toUInt32) 8

/-- The remainder is inverted before the first byte and after the last. -/
def ofBytes (data : List UInt8) : UInt32 :=
  data.foldl feed 0xFFFFFFFF ^^^ 0xFFFFFFFF

end ChipEight.Crc32
