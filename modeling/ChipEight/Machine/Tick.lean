/-
This file makes steps whose effects on the screen and the speaker are forwarded.
-/
import ChipEight.Machine.Step

namespace ChipEight

/-- The screen may get a frame, and the speaker may get a beep. -/
structure Forwarded (Frame : Type) where
  frame? : Option Frame := none
  beep : Bool := false

namespace Machine

/-- A tick is a step after which the changed display is taken. -/
structure Tick where
  machine : Machine
  result : Except Fault Step
  forwarded : Forwarded Display := {}

/-- The frame is the display, if it has changed. -/
def tick (machine : Machine) : Tick :=
  match machine.step with
  | ⟨failed, .error fault⟩ => { machine := failed, result := .error fault }
  | ⟨stepped, .ok step⟩ =>
      { machine := stepped.clearDirty
        result := .ok step
        forwarded := {
          frame? := if stepped.dirty then some stepped.display else none
          beep := step.beep } }

end Machine
end ChipEight
