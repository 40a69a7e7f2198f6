/-
This file executes instruction words on a bare machine, one family of words after another.
-/
import ChipEight.Bare

namespace ChipEight.Bare

section Digits

/-- Masks and shifts cut the digits out of a word. -/
def family (word : Word) : Nat := ((word &&& 0xF000) >>> 12).toNat

def x (word : Word) : Nat := ((word &&& 0x0FFF &&& 0xFF00) >>> 8).toNat

def y (word : Word) : Nat := ((word &&& (0x00FF ^^^ 0x000F)) >>> 4).toNat

def n (word : Word) : Nat := (word &&& 0x000F).toNat

def byte (word : Word) : UInt8 := (word &&& 0x00FF).toUInt8

def address (word : Word) : Word := word &&& 0x0FFF

end Digits

def unsupported (word : Word) : Action Effect :=
  throw (.fault (.word (.unsupported word)))

/-- Family `0` clears the display, returns from a call, or jumps. -/
def system (word : Word) : Action Effect := do
  if word = 0x00E0 then
    clearDisplay
    modify fun bare => { bare with dirty := true }
    return { signal := .draw }
  else if word = 0x00EE then
    let caller ← popCall
    return { advance := .jump (caller + Advance.wordSize) }
  else
    return { advance := .jump (address word) }

/-- Family `1` jumps. -/
def jump (word : Word) : Action Effect :=
  return { advance := .jump (address word) }

/-- Family `2` calls; the address of the call itself is kept. -/
def call (word : Word) : Action Effect := do
  let bare ← get
  pushCall bare.counter
  return { advance := .jump (address word) }

/-- Families `3` and `4` skip if the comparison of a register with a byte holds. -/
def compareByte (holds : UInt8 → UInt8 → Bool) (word : Word) : Action Effect := do
  let value ← register (x word)
  return { advance := .skipIf (holds value (byte word)) }

/-- Families `5` and `9` skip if the comparison of two registers holds. -/
def compareRegisters (holds : UInt8 → UInt8 → Bool) (word : Word) : Action Effect := do
  if n word = 0 then
    let left ← register (x word)
    let right ← register (y word)
    return { advance := .skipIf (holds left right) }
  else
    unsupported word

/-- Family `6` stores a byte. -/
def storeByte (word : Word) : Action Effect := do
  setRegister (x word) (byte word)
  return {}

/-- Family `7` adds a byte. -/
def addByte (word : Word) : Action Effect := do
  let value ← register (x word)
  setRegister (x word) (value + byte word)
  return {}

/-- The fourth digit selects the result of family `8`, perhaps with a flag. -/
def combined (digit : Nat) (shiftSetsFlag : Bool) (left right : UInt8) :
    Option (UInt8 × Option UInt8) :=
  match digit with
  | 0x0 => some (right, none)
  | 0x1 => some (left ||| right, none)
  | 0x2 => some (left &&& right, none)
  | 0x3 => some (left ^^^ right, none)
  | 0x4 => some (left + right, some (Operator.bit (256 ≤ left.toNat + right.toNat)))
  | 0x5 => some (left - right, some (Operator.bit (right ≤ left)))
  | 0x6 => some (left >>> 1, if shiftSetsFlag then some (left &&& 1) else none)
  | 0x7 => some (right - left, some (Operator.bit (left ≤ right)))
  | 0xE => some (left <<< 1, if shiftSetsFlag then some (left >>> 7) else none)
  | _ => none

/-- Family `8` writes the result first and then the flag. -/
def combine (word : Word) : Action Effect := do
  let left ← register (x word)
  let right ← register (y word)
  let bare ← get
  match combined (n word) bare.config.shiftSetsFlag left right with
  | none => unsupported word
  | some (result, none) =>
      setRegister (x word) result
      return {}
  | some (result, some flag) =>
      setRegister (x word) result
      setRegister 15 flag
      return {}

/-- Family `A` sets the index. -/
def setIndex (word : Word) : Action Effect := do
  modify fun bare => { bare with index := address word }
  return {}

/-- Family `B` jumps by an offset, and the sum is not guarded. -/
def jumpFrom (word : Word) : Action Effect := do
  let offset ← register 0
  let target ← check (sum 0x10000 (address word).toNat offset.toNat)
  return { advance := .jump (UInt16.ofNat target) }

/-- Family `C` masks a random byte. -/
def random (word : Word) : Action Effect := do
  let taken ← takeByte
  setRegister (x word) (byte word &&& taken)
  return {}

/-- The places of a sprite row lead from the highest bit at the left edge to the lowest one. -/
def columns : List (Nat × Nat) :=
  (List.range Display.spriteWidth).reverse.zip (List.range Display.spriteWidth)

/-- The row stops at the right edge; an unset bit is passed over. -/
def drawColumns (sprite : UInt8) (left y : Nat) : List (Nat × Nat) → Bool → Action Bool
  | [], collision => return collision
  | (place, column) :: rest, collision => do
      let x ← check (sum hostLimit left column)
      if Display.width ≤ x then
        return collision
      else
        let mask ← check (bitMask place)
        if sprite &&& mask = mask then
          let lit ← pixel x y
          setPixel x y (!lit)
          drawColumns sprite left y rest (collision || lit)
        else
          drawColumns sprite left y rest collision

/-- The sprite stops at the bottom edge. -/
def drawLines (index left top : Nat) : List Nat → Bool → Action Bool
  | [], collision => return collision
  | line :: rest, collision => do
      let y ← check (sum hostLimit top line)
      if Display.height ≤ y then
        return collision
      else
        let position ← check (sum hostLimit index line)
        let sprite ← cell position
        let collision ← drawColumns sprite left y columns collision
        drawLines index left top rest collision

/-- Family `D` draws a sprite and reports a collision. -/
def draw (word : Word) : Action Effect := do
  let bare ← get
  let left ← register (x word)
  let top ← register (y word)
  let collision ← drawLines bare.index.toNat (left.toNat % Display.width)
    (top.toNat % Display.height) (List.range (n word)) false
  setRegister 15 (Operator.bit collision)
  modify fun bare => { bare with dirty := true }
  return { signal := .draw }

/-- Family `E` asks for a key. -/
def askKey (word : Word) : Action Effect := do
  let bare ← get
  let key ← register (x word)
  let pressed? := bare.keypad.isPressed? key.toNat
  match byte word with
  | 0x9E => return { advance := .skipIf (pressed? == some true) }
  | 0xA1 => return { advance := .skipIf (pressed? == some false) }
  | _ => unsupported word

def readDelay (x : Nat) : Action Effect := do
  let bare ← get
  setRegister x bare.delay.value
  return {}

/-- Nothing changes while the machine waits. -/
def awaitKey (x : Nat) : Action Effect := do
  let bare ← get
  match bare.keypad.highest? with
  | some key =>
      setRegister x (UInt8.ofNat key.val)
      return {}
  | none => return { advance := .stay, signal := .wait }

def setDelay (x : Nat) : Action Effect := do
  let value ← register x
  modify fun bare => { bare with delay := ⟨value⟩ }
  return {}

def setSound (x : Nat) : Action Effect := do
  let value ← register x
  modify fun bare => { bare with sound := ⟨value⟩ }
  return {}

def addIndex (x : Nat) : Action Effect := do
  let value ← register x
  modify fun bare => { bare with index := bare.index + value.toUInt16 }
  return {}

/-- The location is refused before the index changes. -/
def selectGlyph (x : Nat) : Action Effect := do
  let digit ← register x
  let offset := digit.toNat * Font.glyphSize
  let location ← check (sum hostLimit Font.location offset)
  if Font.glyphs.length < offset then
    throw (.fault (.glyph location))
  else
    modify fun bare => { bare with index := UInt16.ofNat location }
    return {}

/-- The values go to the addresses from the position on. -/
def storeCells (index : Nat) : Nat → List UInt8 → Action Unit
  | _, [] => return
  | offset, value :: rest => do
      let position ← check (sum hostLimit index offset)
      setCell position value
      storeCells index (offset + 1) rest

def storeDigits (x : Nat) : Action Effect := do
  let bare ← get
  let value ← register x
  storeCells bare.index.toNat 0 [value / 100, value / 10 % 10, value % 10]
  return {}

/-- The last register is stored too. -/
def storeRegisters (x : Nat) : Action Effect := do
  let bare ← get
  let values ← check (front bare.registers (x + 1))
  storeCells bare.index.toNat 0 values
  return {}

def loadCells (index : Nat) : List Nat → Action Unit
  | [] => return
  | offset :: rest => do
      let position ← check (sum hostLimit index offset)
      let value ← cell position
      setRegister offset value
      loadCells index rest

/-- The last register is loaded too. -/
def loadRegisters (x : Nat) : Action Effect := do
  let bare ← get
  let values ← check (front bare.registers (x + 1))
  loadCells bare.index.toNat (List.range values.length)
  return {}

/-- The last byte selects a member of family `F`. -/
def other (word : Word) : Action Effect :=
  match byte word with
  | 0x07 => readDelay (x word)
  | 0x0A => awaitKey (x word)
  | 0x15 => setDelay (x word)
  | 0x18 => setSound (x word)
  | 0x1E => addIndex (x word)
  | 0x29 => selectGlyph (x word)
  | 0x33 => storeDigits (x word)
  | 0x55 => storeRegisters (x word)
  | 0x65 => loadRegisters (x word)
  | _ => unsupported word

/-- A family handles any word, also one of another family. -/
def handle (family : Nat) (word : Word) : Action Effect :=
  match family with
  | 0x0 => system word
  | 0x1 => jump word
  | 0x2 => call word
  | 0x3 => compareByte (· == ·) word
  | 0x4 => compareByte (· != ·) word
  | 0x5 => compareRegisters (· == ·) word
  | 0x6 => storeByte word
  | 0x7 => addByte word
  | 0x8 => combine word
  | 0x9 => compareRegisters (· != ·) word
  | 0xA => setIndex word
  | 0xB => jumpFrom word
  | 0xC => random word
  | 0xD => draw word
  | 0xE => askKey word
  | 0xF => other word
  | _ => unsupported word

/-- The program counter moves after the instruction. -/
def execute (word : Word) : Action Signal := do
  let effect ← handle (family word) word
  advance effect.advance
  return effect.signal

end ChipEight.Bare
