/-
This file lets a clock run a machine until a fault or a limit ends the run.
-/
import ChipEight.Machine.Operation

namespace ChipEight

/-- A tally counts the outcomes of a bounded run of steps. -/
structure Tally where
  machine : Machine
  executed : Nat
  blocked : Nat
  /-- The positions of the steps with a beep. -/
  beeps : List Nat
  fault? : Option Fault
  events : List Event

/-- A step that succeeds is counted before the steps after it. -/
def Tally.cons (position : Nat) (step : Step) (events : List Event) (rest : Tally) : Tally where
  machine := rest.machine
  executed := rest.executed + match step with | .executed _ => 1 | .blocked _ => 0
  blocked := rest.blocked + match step with | .executed _ => 0 | .blocked _ => 1
  beeps := if step.beep then position :: rest.beeps else rest.beeps
  fault? := rest.fault?
  events := events ++ rest.events

/-- The steps are tallied from the given position on; a fault ends them. -/
def Machine.tallyFrom (machine : Machine) (position : Nat) : Nat → Tally
  | 0 => ⟨machine, 0, 0, [], none, []⟩
  | count + 1 =>
      let attempt := machine.step
      let events := machine.stepEvents attempt.result
      match attempt.result with
      | .error fault => ⟨attempt.machine, 0, 0, [], some fault, events⟩
      | .ok step => .cons position step events (attempt.machine.tallyFrom (position + 1) count)

/-- The run makes at most the given count of steps. -/
def Machine.tally (machine : Machine) (count : Nat) : Tally :=
  machine.tallyFrom 0 count

/-- A run records all that a clock and its listeners see. -/
structure Run where
  machine : Machine
  /-- The clock has called this often, the failing call included. -/
  calls : Nat
  frames : List Display
  beeps : Nat
  /-- The faults were sent to the owner of the run and not received yet. -/
  faults : List Fault
  events : List Event

/-- The clock is still running unless a fault was sent. -/
def Run.isRunning (run : Run) : Bool := run.faults.isEmpty

/-- Waiting receives the next fault, if one was sent. -/
def Run.wait (run : Run) : Option Fault × Run :=
  (run.faults.head?, { run with faults := run.faults.tail })

/-- A tick is recorded before the ticks after it. -/
def Run.cons (forwarded : Forwarded Display) (events : List Event) (rest : Run) : Run where
  machine := rest.machine
  calls := rest.calls + 1
  frames := forwarded.frame?.toList ++ rest.frames
  beeps := rest.beeps + if forwarded.beep then 1 else 0
  faults := rest.faults
  events := events ++ rest.events

/-- A run ends with the machine that its last tick left, and perhaps with a fault. -/
def Run.ending (machine : Machine) (fault? : Option Fault) : Run :=
  ⟨machine, 0, [], 0, fault?.toList, fault?.toList.map .stopped⟩

/-- Each call of the clock makes one tick and forwards its frame and its beep. -/
def Machine.ticks (machine : Machine) : Nat → Run
  | 0 => .ending machine none
  | limit + 1 =>
      let tick := machine.tick
      let events := machine.stepEvents tick.result
      match tick.result with
      | .error fault => .cons tick.forwarded events (.ending tick.machine (some fault))
      | .ok _ => .cons tick.forwarded events (tick.machine.ticks limit)

/-- The clock announces its interval and then calls until a fault or the limit. -/
def Machine.run (machine : Machine) (limit : Nat) : Run :=
  let ticked := machine.ticks limit
  { ticked with events := .started machine.config.interval :: ticked.events }

end ChipEight
