/-
This file holds the state of the machine and the ways to set it up.
-/
import ChipEight.Advance
import ChipEight.CallStack
import ChipEight.Config
import ChipEight.Display
import ChipEight.Generator
import ChipEight.Keypad
import ChipEight.Memory
import ChipEight.Rom
import ChipEight.Timer

namespace ChipEight

/-- The machine is all that an instruction can read or change. -/
structure Machine where
  config : Config
  /-- The name of the loaded program. -/
  name : String
  /-- A machine without a program executes nothing. -/
  loaded : Bool
  memory : Memory
  registers : Vector UInt8 16
  /-- The index register holds an address. -/
  index : Word
  /-- The program counter holds the address of the next instruction. -/
  counter : Word
  /-- The word that was fetched last. -/
  fetched : Word
  stack : CallStack
  delay : Timer
  sound : Timer
  cadence : Cadence
  display : Display
  /-- The display has changed since it was last taken. -/
  dirty : Bool
  keypad : Keypad
  generator : Generator

namespace Machine

/-- A new machine takes random bytes from its seed, or else from the given source. -/
def initial (config : Config) (source : Generator) : Machine where
  config := config
  name := ""
  loaded := false
  memory := .initial
  registers := Vector.replicate 16 0
  index := 0
  counter := UInt16.ofNat Memory.programStart
  fetched := 0
  stack := .empty
  delay := {}
  sound := {}
  cadence := .ofPeriod config.cyclesPerTick
  display := .blank
  dirty := false
  keypad := .released
  generator := match config.seed with
    | some seed => .seeded (.ofSeed seed)
    | none => source

/-- A reset keeps the settings, the period of the cadence and the generator. -/
def reset (machine : Machine) : Machine where
  config := machine.config
  name := ""
  loaded := false
  memory := .initial
  registers := Vector.replicate 16 0
  index := 0
  counter := UInt16.ofNat Memory.programStart
  fetched := 0
  stack := .empty
  delay := {}
  sound := {}
  cadence := machine.cadence.restart
  display := .blank
  dirty := false
  keypad := .released
  generator := machine.generator

/-- Loading resets the machine and copies the image to the start of the program. -/
def load (machine : Machine) (rom : Rom) : Machine :=
  let fresh := machine.reset
  { fresh with
    name := rom.name
    loaded := true
    memory := fresh.memory.writeAll Memory.programStart rom.data }

def register (machine : Machine) (index : Nibble) : UInt8 :=
  machine.registers.get index

def setRegister (machine : Machine) (index : Nibble) (value : UInt8) : Machine :=
  { machine with registers := machine.registers.set index value index.below }

/-- The last register also holds carries, borrows and collisions. -/
def flagRegister : Nibble := 15

def advance (machine : Machine) (move : Advance) : Machine :=
  { machine with counter := move.apply machine.counter }

/-- The machine remembers the word that it fetched. -/
def keepFetched (machine : Machine) (word : Word) : Machine :=
  { machine with fetched := word }

def setKeypad (machine : Machine) (keypad : Keypad) : Machine :=
  { machine with keypad := keypad }

def setKey (machine : Machine) (key : Nibble) (pressed : Bool) : Machine :=
  machine.setKeypad (machine.keypad.set key pressed)

def toggleKey (machine : Machine) (key : Nibble) : Machine :=
  machine.setKeypad (machine.keypad.toggle key)

def setGenerator (machine : Machine) (generator : Generator) : Machine :=
  { machine with generator := generator }

/-- Whoever takes the mark of a changed display also clears it. -/
def clearDirty (machine : Machine) : Machine :=
  { machine with dirty := false }

def unload (machine : Machine) : Machine :=
  { machine with loaded := false }

theorem registerSetRegister (machine : Machine) (x y : Nibble) (value : UInt8) :
    (machine.setRegister x value).register y = if x = y then value else machine.register y := by
  change (machine.registers.set x.val value x.below)[y.val] = _
  rw [Vector.getElem_set]
  simp only [Fin.ext_iff]
  rfl

end Machine
end ChipEight
