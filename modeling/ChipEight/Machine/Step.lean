/-
This file makes single steps: fetch, execution and the beat of the timers.
-/
import ChipEight.Machine.Execution

namespace ChipEight

/-- A step executes an instruction or waits for a key, and the speaker may beep. -/
inductive Step where
  | executed (beep : Bool)
  | blocked (beep : Bool)
  deriving DecidableEq, Repr

def Step.beep : Step → Bool
  | .executed beep => beep
  | .blocked beep => beep

namespace Machine

/-- The word to be executed next stands at the program counter. -/
def fetch (machine : Machine) : Except WordFault Word :=
  Word.fetch machine.memory.cells.toArray machine.counter.toNat

/-- The timers count down when the cadence is due. -/
def tickTimers (machine : Machine) : Machine :=
  if machine.cadence.isDue then
    { machine with
      cadence := machine.cadence.advance
      delay := machine.delay.decrement
      sound := machine.sound.decrement }
  else
    { machine with cadence := machine.cadence.advance }

/-- The speaker beeps when the sound timer counts down from a value above zero. -/
def beeps (machine : Machine) : Bool :=
  machine.cadence.isDue && machine.sound.isActive

/-- The timers follow an executed instruction; while the machine waits they stand still, unless
the settings let them go on. -/
def settle (machine : Machine) (signal : Signal) : Machine × Step :=
  match signal with
  | .wait =>
      if machine.config.tickWhileBlocked then (machine.tickTimers, .blocked machine.beeps)
      else (machine, .blocked false)
  | .none | .draw => (machine.tickTimers, .executed machine.beeps)

/-- The fetched word is remembered, then executed, and then the timers follow. -/
def executeFetched (machine : Machine) (word : Word) : Attempt Step :=
  match (machine.keepFetched word).execute word with
  | ⟨failed, .error fault⟩ => ⟨failed, .error fault⟩
  | ⟨executed, .ok signal⟩ =>
      let (settled, step) := executed.settle signal
      ⟨settled, .ok step⟩

/-- A step fails for want of a program, for want of a word, or in its instruction. -/
def step (machine : Machine) : Attempt Step :=
  if machine.loaded then
    match machine.fetch with
    | .error fault => ⟨machine, .error (.word fault)⟩
    | .ok word => machine.executeFetched word
  else
    ⟨machine, .error .unloaded⟩

end Machine
end ChipEight
