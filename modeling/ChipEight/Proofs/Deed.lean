/-
This file lists the instructions that a history performs, by whatever operations.
-/
import ChipEight.Proofs.Dirty
import ChipEight.Proofs.Frame

namespace ChipEight

/-- A deed is an instruction without a reason to fail, in the machine just before it. -/
structure Deed where
  before : Machine
  instruction : Instruction
  permitted : before.performFault? instruction = none

namespace Deed

/-- The machine right after the instruction, before the program counter moves. -/
def after (deed : Deed) : Machine :=
  (deed.before.perform deed.instruction).machine

theorem performs (deed : Deed) :
    ∃ effect, deed.before.perform deed.instruction =
      ⟨deed.after, .ok effect⟩ := by
  obtain ⟨fault, refused, -⟩ | ⟨performed, move, -, performs, -⟩ :=
    deed.before.perform_cases deed.instruction
  · rw [deed.permitted] at refused
    cases refused
  · rw [after, performs]
    exact ⟨_, rfl⟩

theorem stored (deed : Deed) :
    Machine.Stored deed.before deed.instruction deed.after := by
  obtain ⟨effect, performs⟩ := deed.performs
  exact Machine.perform_stored performs

end Deed

namespace Machine

/-- An operation does the deed of its instruction, unless that has a reason to fail. -/
def deed? (machine : Machine) (operation : Operation) : Option Deed :=
  match machine.instructionOf? operation with
  | some instruction =>
      if permitted : machine.performFault? instruction = none then
        some ⟨machine, instruction, permitted⟩
      else none
  | none => none

theorem keeps_of_deed (machine : Machine) {operation : Operation} {deed : Deed}
    (done : machine.deed? operation = some deed) : operation.erases = false := by
  cases operation with
  | load | loadFile | reset => cases done
  | _ => rfl

/-- The deeds keep the order of the operations. -/
def deeds (machine : Machine) : List Operation → List Deed
  | [] => []
  | operation :: rest =>
      (machine.deed? operation).toList ++ (machine.apply operation).machine.deeds rest

theorem deeds_append (machine : Machine) (first second : List Operation) :
    machine.deeds (first ++ second) =
      machine.deeds first ++ (machine.after first).deeds second := by
  induction first generalizing machine with
  | nil => rfl
  | cons operation rest inductionHypothesis =>
      rw [List.cons_append, deeds, inductionHypothesis, deeds, after_cons,
        List.append_assoc]

/-- The parts that only an instruction changes are the same in both machines. -/
structure Settled (performed after : Machine) : Prop where
  index : after.index = performed.index
  memory : after.memory = performed.memory
  registers : after.registers = performed.registers
  display : after.display = performed.display

section Apply

variable (machine : Machine)

/-- An operation does a deed, or it leaves these parts alone. -/
def ApplyCases (operation : Operation) (after : Machine) : Prop :=
  (machine.deed? operation = none ∧ Settled machine after) ∨
  (∃ deed, machine.deed? operation = some deed ∧
    deed.before = machine ∧ Settled deed.after after)

variable {machine} {operation : Operation} {instruction : Instruction} {after : Machine}

theorem ApplyCases.of_none (none : machine.instructionOf? operation = none)
    (settled : Settled machine after) : machine.ApplyCases operation after := by
  refine .inl ⟨?_, settled⟩
  rw [deed?, none]

/-- A deed is all that happens to these parts. -/
theorem ApplyCases.of_some (next : machine.instructionOf? operation = some instruction)
    (settled : Settled (machine.perform instruction).machine after) :
    machine.ApplyCases operation after := by
  obtain ⟨fault, refused, failed⟩ | ⟨performed, move, permitted, performs, -⟩ :=
    machine.perform_cases instruction
  · rw [failed] at settled
    exact .inl ⟨by simp [deed?, next, refused], settled⟩
  · exact .inr ⟨⟨machine, instruction, permitted⟩, by simp [deed?, next, permitted], rfl,
      settled⟩

end Apply

section Operations

variable (machine : Machine)

theorem handle_applyCases (family : Nibble) (word : Word) :
    machine.ApplyCases (.handle family word) (machine.handle family word).machine := by
  unfold handle
  cases decoded : Instruction.decode? family word with
  | none => exact .of_none decoded ⟨rfl, rfl, rfl, rfl⟩
  | some instruction => exact .of_some decoded ⟨rfl, rfl, rfl, rfl⟩

theorem execute_settled (word : Word) :
    Settled (machine.handle word.family word).machine (machine.execute word).machine := by
  unfold execute
  rcases machine.handle word.family word with ⟨handled, fault | effect⟩
  · exact ⟨rfl, rfl, rfl, rfl⟩
  · exact ⟨rfl, rfl, rfl, rfl⟩

theorem execute_applyCases (word : Word) :
    machine.ApplyCases (.execute word) (machine.execute word).machine := by
  have settled := machine.execute_settled word
  cases decoded : Instruction.decode? word.family word with
  | none =>
      simp only [handle, decoded] at settled
      exact .of_none decoded settled
  | some instruction =>
      simp only [handle, decoded] at settled
      exact .of_some decoded settled

theorem settle_settled (signal : Signal) : Settled machine (machine.settle signal).1 := by
  obtain ⟨step, settled, -⟩ | ⟨step, settled, -⟩ := machine.settle_cases signal
  · rw [settled]
    exact ⟨rfl, rfl, rfl, rfl⟩
  · rw [settled, tickTimers_eq]
    exact ⟨rfl, rfl, rfl, rfl⟩

theorem step_settled {instruction : Instruction} (next : machine.instruction? = some instruction) :
    Settled (machine.perform instruction).machine machine.step.machine := by
  obtain ⟨loaded, word, fetched, decoded⟩ := (machine.instruction?_eq_some_iff _).mp next
  have executed := machine.execute_settled word
  simp only [handle, decoded] at executed
  simp only [step, if_pos loaded, fetched, executeFetched, execute_keepFetched]
  cases executes : machine.execute word with
  | mk after result =>
      rw [executes] at executed
      obtain ⟨index, memory, registers, display⟩ := executed
      cases result with
      | error fault => exact ⟨index, memory, registers, display⟩
      | ok signal =>
          have followed := (after.keepFetched word).settle_settled signal
          exact ⟨followed.index.trans index, followed.memory.trans memory,
            followed.registers.trans registers, followed.display.trans display⟩

theorem step_applyCases (operation : Operation) (stepping : operation.isStep) :
    machine.ApplyCases operation (machine.apply operation).machine := by
  have attempted : machine.instructionOf? operation = machine.instruction? := by
    cases operation with
    | step | tick => rfl
    | _ => cases stepping
  obtain ⟨-, dirty, after⟩ := machine.apply_step operation stepping
  rw [after]
  cases next : machine.instruction? with
  | some instruction =>
      obtain ⟨index, memory, registers, display⟩ := machine.step_settled next
      exact .of_some (attempted.trans next) ⟨index, memory, registers, display⟩
  | none =>
      obtain ⟨fault, word, failed⟩ | ⟨instruction, _, _, other, -⟩ := machine.step_moved
      · rw [failed]
        exact .of_none (attempted.trans next) ⟨rfl, rfl, rfl, rfl⟩
      · rw [next] at other
        cases other

/-- Between two erasures, these parts follow from the deeds. -/
theorem apply_cases (operation : Operation) (keeps : operation.erases = false) :
    machine.ApplyCases operation (machine.apply operation).machine := by
  cases operation with
  | step => exact machine.step_applyCases .step rfl
  | tick => exact machine.step_applyCases .tick rfl
  | execute word => exact machine.execute_applyCases word
  | handle family word => exact machine.handle_applyCases family word
  | load name data =>
      simp only [apply, applyLoad]
      cases image : Rom.ofData name data with
      | ok rom => simp [Operation.erases, image, Except.isOk, Except.toBool] at keeps
      | error fault => exact .of_none rfl ⟨rfl, rfl, rfl, rfl⟩
  | loadFile files path =>
      simp only [apply, applyLoadFile, loadFile]
      cases image : Rom.ofFile files path with
      | ok rom => simp [Operation.erases, image, Except.isOk, Except.toBool] at keeps
      | error fault => exact .of_none rfl ⟨rfl, rfl, rfl, rfl⟩
  | reset => cases keeps
  | advance | setKeypad | setKey | toggleKey | setGenerator | takeDirty =>
      exact .of_none rfl ⟨rfl, rfl, rfl, rfl⟩

end Operations

end Machine
end ChipEight
