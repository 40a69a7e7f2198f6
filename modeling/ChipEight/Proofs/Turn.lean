/-
This file lists the instructions that a history executes.
-/
import ChipEight.Machine.History
import ChipEight.Proofs.Cadence.Beat
import ChipEight.Proofs.Effect
import ChipEight.Proofs.Outcome

namespace ChipEight

/-- A turn is one executed instruction; a step that waits for a key is a turn too. -/
structure Turn where
  /-- The machine as it was just before. -/
  before : Machine
  instruction : Instruction
  step : Step
  next : before.instruction? = some instruction
  done : before.step.result = .ok step

namespace Turn

variable (turn : Turn)

/-- The machine after the instruction and the timers. -/
def after : Machine := turn.before.step.machine

theorem inside : turn.before.counter.toNat + 1 < 4096 := by
  obtain ⟨-, word, fetched, -⟩ := (turn.before.instruction?_eq_some_iff _).mp turn.next
  exact ((turn.before.fetch_ok_iff word).mp fetched).1

theorem encodes : ∃ word : Word, Instruction.Encodes word.family word turn.instruction := by
  obtain ⟨-, word, -, decoded⟩ := (turn.before.instruction?_eq_some_iff _).mp turn.next
  exact ⟨word, (Instruction.decode_eq_some_iff _ _ _).mp decoded⟩

/-- An instruction that was executed had no reason to fail. -/
theorem permitted : turn.before.performFault? turn.instruction = none := by
  rw [← Machine.stepFault?_instruction _ turn.next, Option.eq_none_iff_forall_ne_some]
  intro fault reason
  have failed := (turn.before.step_error_iff fault).mpr reason
  rw [turn.done] at failed
  cases failed

theorem moved : turn.before.Moved turn.instruction turn.after := by
  obtain ⟨fault, word, failed⟩ | ⟨instruction, moved, step, next, done, kept⟩ :=
    turn.before.step_moved
  · have ended := turn.done
    rw [failed] at ended
    cases ended
  · obtain rfl : turn.instruction = instruction := Option.some.inj (turn.next.symm.trans next)
    rw [after, done]
    exact kept

/-- A return takes the innermost address from the stack and goes on behind it. -/
theorem leave_shape (leaves : turn.instruction = .leave) :
    ∃ caller, turn.before.stack.calls = caller :: turn.after.stack.calls ∧
      turn.after.counter = caller + Advance.wordSize := by
  have permitted := turn.permitted
  have calls := turn.moved.calls
  have counter := turn.moved.counter
  rw [leaves, Machine.performFault?] at permitted
  rw [leaves, Machine.performCalls_leave] at calls
  rw [leaves, Machine.performAdvance_leave] at counter
  cases stack : turn.before.stack.calls with
  | nil => simp [stack] at permitted
  | cons caller rest =>
      rw [stack] at calls counter
      exact ⟨caller, by rw [calls]; rfl, counter⟩

end Turn

namespace Machine

/-- A step or a tick that succeeds is a turn. -/
def turn? (machine : Machine) (operation : Operation) : Option Turn :=
  if operation.isStep then
    match next : machine.instruction?, done : machine.step.result with
    | some instruction, .ok step => some ⟨machine, instruction, step, next, done⟩
    | _, _ => none
  else
    none

/-- The turns keep the order of the operations. -/
def turns (machine : Machine) : List Operation → List Turn
  | [] => []
  | operation :: rest =>
      (machine.turn? operation).toList ++ (machine.apply operation).machine.turns rest

theorem turns_append (machine : Machine) (first second : List Operation) :
    machine.turns (first ++ second) =
      machine.turns first ++ (machine.after first).turns second := by
  induction first generalizing machine with
  | nil => rfl
  | cons operation rest inductionHypothesis =>
      rw [List.cons_append, turns, inductionHypothesis, turns, after_cons, List.append_assoc]

/-- The program counter, the stack and the display stay. -/
structure Still (before after : Machine) : Prop where
  counter : after.counter = before.counter
  stack : after.stack = before.stack
  display : after.display = before.display

section Apply

variable (machine : Machine)

theorem turn?_of_failed {fault : Fault} (operation : Operation)
    (failed : machine.step.result = .error fault) : machine.turn? operation = none := by
  unfold turn?
  split
  · split
    · rename_i done
      rw [failed] at done
      cases done
    · rfl
  · rfl

theorem turn?_of_turn (turn : Turn) (operation : Operation) (stepping : operation.isStep) :
    turn.before.turn? operation = some turn := by
  unfold turn?
  rw [if_pos stepping]
  split
  · rename_i instruction step next done
    rcases turn with ⟨before, instruction', step', next', done'⟩
    obtain rfl : instruction = instruction' := Option.some.inj (next.symm.trans next')
    obtain rfl : step = step' := Except.ok.inj (done.symm.trans done')
    rfl
  · rename_i apart
    exact (apart _ _ turn.next turn.done).elim

theorem turn?_before {turn : Turn} (operation : Operation)
    (taken : machine.turn? operation = some turn) : turn.before = machine := by
  unfold turn? at taken
  split at taken
  · split at taken
    · cases taken
      rfl
    · cases taken
  · cases taken

/-- A play that is no turn moves nothing, and a turn moves the machine as its instruction says. -/
theorem apply_turn (operation : Operation) (play : operation.isPlay) :
    (machine.turn? operation = none ∧ Still machine (machine.apply operation).machine) ∨
    (∃ turn dirty, machine.turn? operation = some turn ∧ turn.before = machine ∧
      (machine.apply operation).machine = { turn.after with dirty := dirty }) := by
  by_cases stepping : operation.isStep
  · obtain ⟨-, dirty, after⟩ := machine.apply_step operation stepping
    obtain ⟨fault, word, failed⟩ | ⟨instruction, moved, step, next, done, -⟩ := machine.step_moved
    · refine .inl ⟨machine.turn?_of_failed operation (congrArg Attempt.result failed), ?_⟩
      rw [after, failed]
      exact ⟨rfl, rfl, rfl⟩
    · let turn : Turn := ⟨machine, instruction, step, next, congrArg Attempt.result done⟩
      exact .inr ⟨turn, dirty, turn?_of_turn turn operation stepping, rfl, after⟩
  · refine .inl ⟨if_neg stepping, ?_⟩
    cases operation with
    | step | tick => simp [Operation.isStep] at stepping
    | setKeypad | setKey | toggleKey | setGenerator | takeDirty => exact ⟨rfl, rfl, rfl⟩
    | load | loadFile | execute | handle | advance | reset => cases play

/-- Each turn is made by the machine that the operations of the turns before it leave behind. -/
theorem turns_split (operations : List Operation) (earlier later : List Turn) (turn : Turn)
    (shape : machine.turns operations = earlier ++ turn :: later) :
    ∃ first second, operations = first ++ second ∧ machine.turns first = earlier ∧
      turn.before = machine.after first := by
  induction operations generalizing machine earlier with
  | nil => simp [turns] at shape
  | cons operation rest inductionHypothesis =>
      rw [turns] at shape
      cases taken : machine.turn? operation with
      | none =>
          rw [taken] at shape
          obtain ⟨first, second, rfl, same, before⟩ := inductionHypothesis _ earlier shape
          refine ⟨operation :: first, second, rfl, ?_, before⟩
          rw [turns, taken, same]
          rfl
      | some head =>
          rw [taken, Option.toList_some, List.singleton_append] at shape
          cases earlier with
          | nil =>
              obtain ⟨rfl, -⟩ := List.cons.inj shape
              exact ⟨[], operation :: rest, rfl, rfl, machine.turn?_before operation taken⟩
          | cons other tail =>
              obtain ⟨rfl, others⟩ := List.cons.inj shape
              obtain ⟨first, second, rfl, same, before⟩ := inductionHypothesis _ tail others
              refine ⟨operation :: first, second, rfl, ?_, before⟩
              rw [turns, taken, same]
              rfl

end Apply

end Machine
end ChipEight
