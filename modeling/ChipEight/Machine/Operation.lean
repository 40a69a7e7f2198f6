/-
This file collects all that can be done to a machine into one type, so that a history of a machine
is a list.
-/
import ChipEight.Machine.Event
import ChipEight.Machine.Tick
import ChipEight.Rom.File

namespace ChipEight

namespace Machine

/-- Reading a file either loads the machine or leaves it without a program. -/
def loadFile (machine : Machine) (files : FileTree) (path : String) : Machine :=
  match Rom.ofFile files path with
  | .ok rom => machine.load rom
  | .error _ => machine.unload

end Machine

/-- An operation is one thing that can be done to a machine. -/
inductive Operation where
  /-- The data is loaded if it is a program image. -/
  | load (name : String) (data : List UInt8)
  | loadFile (files : FileTree) (path : String)
  | step
  | tick
  /-- The word is executed without a fetch. -/
  | execute (word : Word)
  /-- The family handles the word, and the program counter stays. -/
  | handle (family : Nibble) (word : Word)
  | advance (move : Advance)
  | setKeypad (keypad : Keypad)
  | setKey (key : Nibble) (pressed : Bool)
  | toggleKey (key : Nibble)
  | setGenerator (generator : Generator)
  | takeDirty
  | reset

/-- An answer tells how an operation ended. -/
inductive Answer where
  | done
  | refused (fault : LoadFault)
  | failed (fault : Fault)
  | stepped (step : Step)
  | executed (signal : Signal)
  | handled (advance : Advance) (signal : Signal)
  | dirty (changed : Bool)

/-- Steps and ticks end with a step or with a fault. -/
def Answer.ofStep : Except Fault Step → Answer
  | .ok step => .stepped step
  | .error fault => .failed fault

/-- Directly executed words end with a signal or with a fault. -/
def Answer.ofSignal : Except Fault Signal → Answer
  | .ok signal => .executed signal
  | .error fault => .failed fault

/-- Directly called families end with an effect or with a fault. -/
def Answer.ofEffect : Except Fault Effect → Answer
  | .ok effect => .handled effect.advance effect.signal
  | .error fault => .failed fault

/-- A reply holds the machine after an operation, its answer, the events in between, and what the
screen and the speaker got. -/
structure Reply where
  machine : Machine
  answer : Answer
  events : List Event := []
  forwarded : Forwarded Display := {}

namespace Machine

/-- An image that is refused leaves the machine alone. -/
def applyLoad (machine : Machine) (name : String) (data : List UInt8) : Reply :=
  match Rom.ofData name data with
  | .ok rom =>
      { machine := machine.load rom
        answer := .done
        events := [.loaded rom.name rom.data.length] }
  | .error fault => { machine := machine, answer := .refused fault }

def applyLoadFile (machine : Machine) (files : FileTree) (path : String) : Reply :=
  match Rom.ofFile files path with
  | .ok rom =>
      { machine := machine.loadFile files path
        answer := .done
        events := [.loaded rom.name rom.data.length] }
  | .error fault => { machine := machine.loadFile files path, answer := .refused fault }

def applyStep (machine : Machine) : Reply :=
  let attempt := machine.step
  { machine := attempt.machine
    answer := .ofStep attempt.result
    events := machine.stepEvents attempt.result }

def applyTick (machine : Machine) : Reply :=
  let tick := machine.tick
  { machine := tick.machine
    answer := .ofStep tick.result
    events := machine.stepEvents tick.result
    forwarded := tick.forwarded }

def applyExecute (machine : Machine) (word : Word) : Reply :=
  let attempt := machine.execute word
  { machine := attempt.machine
    answer := .ofSignal attempt.result
    events := machine.executeEvents word }

def applyHandle (machine : Machine) (family : Nibble) (word : Word) : Reply :=
  let attempt := machine.handle family word
  { machine := attempt.machine
    answer := .ofEffect attempt.result
    events := machine.handleEvents family word }

/-- Every operation leaves a machine behind, also one that fails. -/
def apply (machine : Machine) : Operation → Reply
  | .load name data => machine.applyLoad name data
  | .loadFile files path => machine.applyLoadFile files path
  | .step => machine.applyStep
  | .tick => machine.applyTick
  | .execute word => machine.applyExecute word
  | .handle family word => machine.applyHandle family word
  | .advance move => { machine := machine.advance move, answer := .done }
  | .setKeypad keypad => { machine := machine.setKeypad keypad, answer := .done }
  | .setKey key pressed => { machine := machine.setKey key pressed, answer := .done }
  | .toggleKey key => { machine := machine.toggleKey key, answer := .done }
  | .setGenerator generator => { machine := machine.setGenerator generator, answer := .done }
  | .takeDirty => { machine := machine.clearDirty, answer := .dirty machine.dirty }
  | .reset => { machine := machine.reset, answer := .done }

end Machine
end ChipEight
