/-
This file names the instructions and decodes them from words.
-/
import ChipEight.Word

namespace ChipEight

/-- An operator combines two registers. -/
inductive Operator where
  | copy
  | or
  | and
  | xor
  | add
  | subtract
  | shiftRight
  | subtractFrom
  | shiftLeft
  deriving DecidableEq, Repr

/-- The fourth digit selects the operator. -/
def Operator.decode? (digit : Nibble) : Option Operator :=
  match digit.val with
  | 0x0 => some .copy
  | 0x1 => some .or
  | 0x2 => some .and
  | 0x3 => some .xor
  | 0x4 => some .add
  | 0x5 => some .subtract
  | 0x6 => some .shiftRight
  | 0x7 => some .subtractFrom
  | 0xE => some .shiftLeft
  | _ => none

/-- An instruction names registers by their index. -/
inductive Instruction where
  | clear
  | leave
  | jump (target : Word)
  | call (target : Word)
  | skipIfByte (x : Nibble) (byte : UInt8)
  | skipUnlessByte (x : Nibble) (byte : UInt8)
  | skipIfEqual (x y : Nibble)
  | skipUnlessEqual (x y : Nibble)
  | setByte (x : Nibble) (byte : UInt8)
  | addByte (x : Nibble) (byte : UInt8)
  | combine (operator : Operator) (x y : Nibble)
  | setIndex (target : Word)
  | jumpFrom (target : Word)
  | random (x : Nibble) (mask : UInt8)
  | draw (x y height : Nibble)
  | skipIfPressed (x : Nibble)
  | skipIfReleased (x : Nibble)
  | readDelay (x : Nibble)
  | awaitKey (x : Nibble)
  | setDelay (x : Nibble)
  | setSound (x : Nibble)
  | addIndex (x : Nibble)
  | selectGlyph (x : Nibble)
  | storeDigits (x : Nibble)
  | storeRegisters (x : Nibble)
  | loadRegisters (x : Nibble)
  deriving DecidableEq, Repr

namespace Instruction

/-- The last byte selects a key instruction. -/
def decodeKeys? (x : Nibble) (byte : UInt8) : Option Instruction :=
  match byte with
  | 0x9E => some (.skipIfPressed x)
  | 0xA1 => some (.skipIfReleased x)
  | _ => none

/-- The last byte selects a member of the family `F`. -/
def decodeOther? (x : Nibble) (byte : UInt8) : Option Instruction :=
  match byte with
  | 0x07 => some (.readDelay x)
  | 0x0A => some (.awaitKey x)
  | 0x15 => some (.setDelay x)
  | 0x18 => some (.setSound x)
  | 0x1E => some (.addIndex x)
  | 0x29 => some (.selectGlyph x)
  | 0x33 => some (.storeDigits x)
  | 0x55 => some (.storeRegisters x)
  | 0x65 => some (.loadRegisters x)
  | _ => none

/-- The family reads only the digits after the first; the family `0` reads the whole word.
A routine of the host machine is entered by a jump, because there is no host machine. -/
def decode? (family : Nibble) (word : Word) : Option Instruction :=
  match family.val with
  | 0x0 =>
      if word = 0x00E0 then some .clear
      else if word = 0x00EE then some .leave
      else some (.jump word.address)
  | 0x1 => some (.jump word.address)
  | 0x2 => some (.call word.address)
  | 0x3 => some (.skipIfByte word.x word.byte)
  | 0x4 => some (.skipUnlessByte word.x word.byte)
  | 0x5 => if word.n = 0 then some (.skipIfEqual word.x word.y) else none
  | 0x6 => some (.setByte word.x word.byte)
  | 0x7 => some (.addByte word.x word.byte)
  | 0x8 => (Operator.decode? word.n).map fun operator => .combine operator word.x word.y
  | 0x9 => if word.n = 0 then some (.skipUnlessEqual word.x word.y) else none
  | 0xA => some (.setIndex word.address)
  | 0xB => some (.jumpFrom word.address)
  | 0xC => some (.random word.x word.byte)
  | 0xD => some (.draw word.x word.y word.n)
  | 0xE => decodeKeys? word.x word.byte
  | _ => decodeOther? word.x word.byte

end Instruction
end ChipEight
