/-
This file cuts instruction words into digits and reads them from bytes.
-/
import ChipEight.Fault

namespace ChipEight

/-- A word is an instruction or an address of the machine. -/
abbrev Word := UInt16

/-- A nibble is one base-16 digit. -/
abbrev Nibble := Fin 16

/-- A nibble can be written as a numeral. -/
instance Nibble.nonzero : @NeZero Nat Zero.ofOfNat0 16 := ⟨Nat.succ_ne_zero 15⟩

theorem Nibble.below (nibble : Nibble) : nibble.val < 16 := nibble.isLt

namespace Word

/-- The first digit selects the family of an instruction. -/
def family (word : Word) : Nibble :=
  ⟨word.toNat / 0x1000, by have := word.toNat_lt; omega⟩

/-- The second digit names a register. -/
def x (word : Word) : Nibble :=
  ⟨word.toNat / 0x100 % 16, by omega⟩

/-- The third digit names a register. -/
def y (word : Word) : Nibble :=
  ⟨word.toNat / 0x10 % 16, by omega⟩

/-- The fourth digit is a height or selects a member of a family. -/
def n (word : Word) : Nibble :=
  ⟨word.toNat % 16, by omega⟩

/-- The last two digits form a byte. -/
def byte (word : Word) : UInt8 :=
  UInt8.ofNat (word.toNat % 0x100)

/-- The last three digits form an address. -/
def address (word : Word) : Word :=
  UInt16.ofNat (word.toNat % 0x1000)

/-- The high byte comes first. -/
def ofBytes (high low : UInt8) : Word :=
  UInt16.ofNat (high.toNat * 0x100 + low.toNat)

/-- The fetch reads the two bytes at the pointer. -/
def fetch (bytes : Array UInt8) (pointer : Nat) : Except WordFault Word :=
  if inside : pointer + 1 < bytes.size then
    .ok (ofBytes bytes[pointer] bytes[pointer + 1])
  else
    .error (.outside pointer bytes.size)

end Word
end ChipEight
