/-
This file executes instructions. An instruction leaves a machine behind even if it fails.
-/
import ChipEight.Machine
import ChipEight.Operator

namespace ChipEight

/-- A signal tells the outside what an instruction did. -/
inductive Signal where
  | none
  /-- The display was drawn or cleared. -/
  | draw
  /-- The instruction waits for a key and has to be executed again. -/
  | wait
  deriving DecidableEq, Repr

/-- An effect tells how the program counter will move and what the outside learns. -/
structure Effect where
  advance : Advance := .next
  signal : Signal := .none

/-- An attempt leaves a machine behind, and ends with a value or with a fault. -/
structure Attempt (α : Type) where
  machine : Machine
  result : Except Fault α

namespace Machine

/-- The result is written first, so a flag wins over a result in the flag register. -/
def combine (machine : Machine) (operator : Operator) (x y : Nibble) : Machine :=
  let left := machine.register x
  let right := machine.register y
  let written := machine.setRegister x (operator.result left right)
  match operator.flag? machine.config.shiftSetsFlag left right with
  | some flag => written.setRegister flagRegister flag
  | none => written

/-- The sprite starts inside the display; the flag register reports a collision. -/
def draw (machine : Machine) (x y height : Nibble) : Machine :=
  let left := (machine.register x).toNat % Display.width
  let top := (machine.register y).toNat % Display.height
  let sprite := machine.memory.readAll machine.index.toNat height.val
  let drawing := machine.display.drawSprite left top sprite
  { machine with
    display := drawing.display
    dirty := true
    registers := machine.registers.set flagRegister (Operator.bit drawing.collision) }

/-- The digits are the hundreds, the tens and the ones. -/
def digits (value : UInt8) : List UInt8 :=
  [value / 100, value / 10 % 10, value % 10]

/-- The digits of the register are stored. -/
def storeDigits (machine : Machine) (x : Nibble) : Machine :=
  { machine with
    memory := machine.memory.writeAll machine.index.toNat (digits (machine.register x)) }

/-- The registers up to and including the last one are stored. -/
def storeRegisters (machine : Machine) (last : Nibble) : Machine :=
  let values := machine.registers.toList.take (last.val + 1)
  { machine with memory := machine.memory.writeAll machine.index.toNat values }

/-- The registers up to and including the last one are loaded. -/
def loadRegisters (machine : Machine) (last : Nibble) : Machine :=
  { machine with
    registers := Vector.ofFn fun index : Nibble =>
      if index ≤ last then machine.memory.read (machine.index.toNat + index.val)
      else machine.register index }

/-- The instruction changes the machine, but for the program counter, or fails. -/
def perform (machine : Machine) : Instruction → Attempt Effect
  | .clear => ⟨{ machine with display := .blank, dirty := true }, .ok { signal := .draw }⟩
  | .leave =>
      match machine.stack.pop with
      | .error fault => ⟨machine, .error (.stack fault)⟩
      | .ok (address, stack) =>
          ⟨{ machine with stack := stack },
            .ok { advance := .jump (address + Advance.wordSize) }⟩
  | .jump target => ⟨machine, .ok { advance := .jump target }⟩
  | .call target =>
      match machine.stack.push machine.counter with
      | .error fault => ⟨machine, .error (.stack fault)⟩
      | .ok stack => ⟨{ machine with stack := stack }, .ok { advance := .jump target }⟩
  | .skipIfByte x byte =>
      ⟨machine, .ok { advance := .skipIf (machine.register x == byte) }⟩
  | .skipUnlessByte x byte =>
      ⟨machine, .ok { advance := .skipIf (machine.register x != byte) }⟩
  | .skipIfEqual x y =>
      ⟨machine, .ok { advance := .skipIf (machine.register x == machine.register y) }⟩
  | .skipUnlessEqual x y =>
      ⟨machine, .ok { advance := .skipIf (machine.register x != machine.register y) }⟩
  | .setByte x byte => ⟨machine.setRegister x byte, .ok {}⟩
  | .addByte x byte => ⟨machine.setRegister x (machine.register x + byte), .ok {}⟩
  | .combine operator x y => ⟨machine.combine operator x y, .ok {}⟩
  | .setIndex target => ⟨{ machine with index := target }, .ok {}⟩
  | .jumpFrom target =>
      ⟨machine, .ok { advance := .jump (target + (machine.register 0).toUInt16) }⟩
  | .random x mask =>
      ⟨{ machine.setRegister x (mask &&& machine.generator.byte) with
          generator := machine.generator.next }, .ok {}⟩
  | .draw x y height => ⟨machine.draw x y height, .ok { signal := .draw }⟩
  | .skipIfPressed x =>
      ⟨machine, .ok {
        advance := .skipIf (machine.keypad.isPressed? (machine.register x).toNat == some true) }⟩
  | .skipIfReleased x =>
      ⟨machine, .ok {
        advance := .skipIf (machine.keypad.isPressed? (machine.register x).toNat == some false) }⟩
  | .readDelay x => ⟨machine.setRegister x machine.delay.value, .ok {}⟩
  | .awaitKey x =>
      match machine.keypad.highest? with
      | some key => ⟨machine.setRegister x (UInt8.ofNat key.val), .ok {}⟩
      | none => ⟨machine, .ok { advance := .stay, signal := .wait }⟩
  | .setDelay x => ⟨{ machine with delay := ⟨machine.register x⟩ }, .ok {}⟩
  | .setSound x => ⟨{ machine with sound := ⟨machine.register x⟩ }, .ok {}⟩
  | .addIndex x =>
      ⟨{ machine with index := machine.index + (machine.register x).toUInt16 }, .ok {}⟩
  | .selectGlyph x =>
      let offset := (machine.register x).toNat * Font.glyphSize
      let location := Font.location + offset
      if Font.glyphs.length < offset then ⟨machine, .error (.glyph location)⟩
      else ⟨{ machine with index := UInt16.ofNat location }, .ok {}⟩
  | .storeDigits x => ⟨machine.storeDigits x, .ok {}⟩
  | .storeRegisters x => ⟨machine.storeRegisters x, .ok {}⟩
  | .loadRegisters x => ⟨machine.loadRegisters x, .ok {}⟩

/-- The family handles any word; it reads the word's own family only if the family is `0`. -/
def handle (machine : Machine) (family : Nibble) (word : Word) : Attempt Effect :=
  match Instruction.decode? family word with
  | some instruction => machine.perform instruction
  | none => ⟨machine, .error (.word (.unsupported word))⟩

/-- The word is handled by its own family, and then the program counter moves. -/
def execute (machine : Machine) (word : Word) : Attempt Signal :=
  match machine.handle word.family word with
  | ⟨failed, .error fault⟩ => ⟨failed, .error fault⟩
  | ⟨handled, .ok effect⟩ => ⟨handled.advance effect.advance, .ok effect.signal⟩

end Machine
end ChipEight
