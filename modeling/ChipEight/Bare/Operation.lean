/-
This file does to a bare machine all that can be done to a machine.
-/
import ChipEight.Bare.Family
import ChipEight.Machine.Operation

namespace ChipEight.Bare

/-- The word at the program counter is kept, if both of its bytes lie inside the memory. -/
def fetch : Action Word := do
  let bare ← get
  let pointer := bare.counter.toNat
  let next ← check (sum hostLimit pointer 1)
  if next < bare.memory.size then
    let high ← check (item bare.memory pointer)
    let low ← check (item bare.memory next)
    let word := Word.ofBytes high low
    set { bare with fetched := word }
    return word
  else
    throw (.fault (.word (.outside pointer bare.memory.size)))

/-- The cycle is counted up before it is compared with the threshold. -/
def advanceCadence : Action Bool := do
  let bare ← get
  let cycle ← check (sum 0x100000000 bare.cycle.toNat 1)
  if bare.threshold ≤ UInt32.ofNat cycle then
    set { bare with cycle := 0 }
    return true
  else
    set { bare with cycle := UInt32.ofNat cycle }
    return false

/-- The timers count down when the cadence is due; the answer is whether to beep. -/
def tickTimers : Action Bool := do
  let due ← advanceCadence
  if due then
    let bare ← get
    set { bare with delay := bare.delay.decrement, sound := bare.sound.decrement }
    return bare.sound.isActive
  else
    return false

/-- The timers follow an executed instruction, and a waiting one if the settings ask for it. -/
def settle (signal : Signal) : Action Step := do
  let bare ← get
  if signal = .wait then
    if bare.config.tickWhileBlocked then
      let beep ← tickTimers
      return .blocked beep
    else
      return .blocked false
  else
    let beep ← tickTimers
    return .executed beep

def step : Action Step := do
  let bare ← get
  if bare.loaded then
    let word ← fetch
    let signal ← execute word
    settle signal
  else
    throw (.fault .unloaded)

def takeDirty : Action Bool := do
  let bare ← get
  set { bare with dirty := false }
  return bare.dirty

/-- A changed display is forwarded after the step. -/
def tick : Action (Step × Forwarded Frame) := do
  let step ← step
  let changed ← takeDirty
  let bare ← get
  return (step, { frame? := if changed then some bare.display else none, beep := step.beep })

/-- The font is copied to the zeroed memory. -/
def initialMemory : Except Panic (Array UInt8) :=
  copy (Array.replicate Memory.size 0) Font.location Font.glyphs

def initial (config : Config) (source : Generator) : Except Panic Bare :=
  match initialMemory with
  | .error panic => .error panic
  | .ok memory => .ok {
      config := config
      name := ""
      loaded := false
      memory := memory
      registers := Array.replicate 16 0
      index := 0
      counter := UInt16.ofNat Memory.programStart
      fetched := 0
      stack := #[]
      delay := {}
      sound := {}
      threshold := max config.cyclesPerTick 1
      cycle := 0
      display := Array.replicate Display.height (Array.replicate Display.width false)
      dirty := false
      keypad := .released
      generator := match config.seed with
        | some seed => .seeded (.ofSeed seed)
        | none => source }

/-- The settings, the threshold and the generator stay. -/
def reset : Action Unit := do
  let memory ← check initialMemory
  clearDisplay
  modify fun bare => { bare with
    name := ""
    loaded := false
    memory := memory
    registers := Array.replicate 16 0
    index := 0
    counter := UInt16.ofNat Memory.programStart
    fetched := 0
    stack := #[]
    delay := {}
    sound := {}
    cycle := 0
    dirty := false
    keypad := .released }

/-- The data is copied behind the start of the program, whether it fits or not. -/
def load (name : String) (data : List UInt8) : Action Unit := do
  reset
  let bare ← get
  let memory ← check (copy bare.memory Memory.programStart data)
  set { bare with memory := memory, name := name, loaded := true }

def unload : Action Unit :=
  modify fun bare => { bare with loaded := false }

def setKeypad (keypad : Keypad) : Action Unit :=
  modify fun bare => { bare with keypad := keypad }

/-- A key has to be one of the keypad. -/
def key (position : Nat) : Except Panic Nibble :=
  if inside : position < Keypad.size then .ok ⟨position, inside⟩
  else .error (.index position Keypad.size)

def setKey (position : Nat) (pressed : Bool) : Action Unit := do
  let bare ← get
  let key ← check (key position)
  setKeypad (bare.keypad.set key pressed)

def toggleKey (position : Nat) : Action Unit := do
  let bare ← get
  let key ← check (key position)
  setKeypad (bare.keypad.toggle key)

def setGenerator (generator : Generator) : Action Unit :=
  modify fun bare => { bare with generator := generator }

/-- An image that is refused leaves the machine alone. -/
def applyLoad (name : String) (data : List UInt8) : Action Answer := do
  match Rom.ofData name data with
  | .error fault => return .refused fault
  | .ok rom =>
      load rom.name rom.data
      return .done

/-- A file that is refused leaves the machine without a program. -/
def applyLoadFile (files : FileTree) (path : String) : Action Answer := do
  match Rom.ofFile files path with
  | .error fault =>
      unload
      return .refused fault
  | .ok rom =>
      load rom.name rom.data
      return .done

/-- The answer of an action may be read off its value. -/
def answering {A : Type} (action : Action A) (answer : A → Answer) :
    Action (Answer × Forwarded Frame) := do
  let value ← action
  return (answer value, {})

def act : Operation → Action (Answer × Forwarded Frame)
  | .load name data => answering (applyLoad name data) id
  | .loadFile files path => answering (applyLoadFile files path) id
  | .step => answering step .stepped
  | .tick => do
      let (step, forwarded) ← tick
      return (.stepped step, forwarded)
  | .execute word => answering (execute word) .executed
  | .handle family word =>
      answering (handle family.val word) fun effect => .handled effect.advance effect.signal
  | .advance move => answering (advance move) fun _ => .done
  | .setKeypad keypad => answering (setKeypad keypad) fun _ => .done
  | .setKey key pressed => answering (setKey key.val pressed) fun _ => .done
  | .toggleKey key => answering (toggleKey key.val) fun _ => .done
  | .setGenerator generator => answering (setGenerator generator) fun _ => .done
  | .takeDirty => answering takeDirty .dirty
  | .reset => answering reset fun _ => .done

/-- A reply holds the machine after an operation, its answer, and what was forwarded. -/
structure Reply where
  bare : Bare
  answer : Answer
  forwarded : Forwarded Frame := {}

/-- A reported fault is an answer, and only a panic is not. -/
def apply (bare : Bare) (operation : Operation) : Except Panic Reply :=
  match act operation bare with
  | .ok (answer, forwarded) next => .ok ⟨next, answer, forwarded⟩
  | .error (.fault fault) next => .ok { bare := next, answer := .failed fault }
  | .error (.panic panic) _ => .error panic

/-- The operations are applied one after another, until one of them panics. -/
def replies (bare : Bare) : List Operation → Except Panic (List Reply)
  | [] => .ok []
  | operation :: rest =>
      match bare.apply operation with
      | .error panic => .error panic
      | .ok reply =>
          match reply.bare.replies rest with
          | .error panic => .error panic
          | .ok others => .ok (reply :: others)

end ChipEight.Bare
