/-
This file shows that a failure changes nothing and that no play can undo it.
-/
import Mathlib.Data.List.Forall2
import ChipEight.Proofs.Bare.Operations
import ChipEight.Proofs.Outcome

namespace ChipEight

namespace Machine

section Atomic

variable (machine : Machine) (fault : Fault)

theorem step_atomic (failed : machine.step.result = .error fault) :
    machine.step.machine = { machine with fetched := machine.step.machine.fetched } := by
  obtain ⟨found, word, -, -, done⟩ | ⟨_, _, _, _, -, -, -, -, -, -, done⟩ := machine.step_cases
  · rw [done]
    rfl
  · rw [done] at failed
    cases failed

theorem execute_atomic (word : Word) (failed : (machine.execute word).result = .error fault) :
    (machine.execute word).machine = machine := by
  obtain ⟨found, -, done⟩ | ⟨_, _, _, -, -, done, -⟩ := machine.execute_cases word
  · rw [done]
  · rw [done] at failed
    cases failed

theorem handle_atomic (family : Nibble) (word : Word)
    (failed : (machine.handle family word).result = .error fault) :
    (machine.handle family word).machine = machine := by
  obtain ⟨found, -, done⟩ | ⟨_, _, _, -, -, done, -⟩ := machine.handle_cases family word
  · rw [done]
  · rw [done] at failed
    cases failed

end Atomic

section InPlace

theorem attempt_bare_error {A : Type} {attempt : Attempt A} {fault : Fault} {after : Bare}
    (stopped : attempt.bare = .error (.fault fault) after) :
    attempt.result = .error fault ∧ after = attempt.machine.bare := by
  rcases attempt with ⟨machine, found | value⟩
  · cases stopped
    exact ⟨rfl, rfl⟩
  · cases stopped

variable (machine : Machine) (fault : Fault)

theorem step_inPlace (after : Bare)
    (stopped : Bare.step machine.bare = .error (.fault fault) after) :
    after = { machine.bare with fetched := after.fetched } := by
  rw [Bare.step_bare] at stopped
  obtain ⟨failed, rfl⟩ := attempt_bare_error stopped
  rw [machine.step_atomic fault failed]
  rfl

theorem execute_inPlace (word : Word) (after : Bare)
    (stopped : Bare.execute word machine.bare = .error (.fault fault) after) :
    after = machine.bare := by
  rw [Bare.execute_bare] at stopped
  obtain ⟨failed, rfl⟩ := attempt_bare_error stopped
  rw [machine.execute_atomic fault word failed]

theorem handle_inPlace (family : Nibble) (word : Word) (after : Bare)
    (stopped : Bare.handle family.val word machine.bare = .error (.fault fault) after) :
    after = machine.bare := by
  rw [Bare.handle_bare] at stopped
  obtain ⟨failed, rfl⟩ := attempt_bare_error stopped
  rw [machine.handle_atomic fault family word failed]

end InPlace

section Stuck

/-- The machine fails again with the same fault, and neither the screen nor the speaker gets
anything. -/
def StuckReply (fault : Fault) (operation : Operation) (reply : Reply) : Prop :=
  (operation.isStep → reply.answer = .failed fault) ∧ reply.forwarded = {}

variable {machine : Machine} {fault : Fault}

theorem step_stuck (stuck : machine.stepFault? = some fault) :
    ∃ word, machine.step = ⟨machine.keepFetched word, .error fault⟩ := by
  obtain ⟨found, word, reason, -, done⟩ | ⟨_, _, _, _, reason, -⟩ := machine.step_cases
  · rw [stuck] at reason
    cases reason
    exact ⟨word, done⟩
  · rw [stuck] at reason
    cases reason

/-- A play keeps the reason of a failure. -/
theorem apply_stuck (stuck : machine.stepFault? = some fault) (operation : Operation)
    (play : operation.isPlay) :
    StuckReply fault operation (machine.apply operation) ∧
      (machine.apply operation).machine.stepFault? = some fault := by
  obtain ⟨word, failed⟩ := step_stuck stuck
  have kept := (stepFault?_congr (machine.keepFetched_sameFaults word)).trans stuck
  cases operation with
  | step => simp [apply, applyStep, failed, kept, StuckReply, Answer.ofStep]
  | tick => simp [apply, applyTick, tick, failed, kept, StuckReply, Answer.ofStep]
  | setKeypad | setKey | toggleKey | setGenerator | takeDirty =>
      exact ⟨⟨by simp [Operation.isStep], rfl⟩, stuck⟩
  | load | loadFile | execute | handle | advance | reset => simp [Operation.isPlay] at play

/-- Whatever is played, the machine stays stuck. -/
theorem replies_stuck (stuck : machine.stepFault? = some fault) (operations : List Operation)
    (play : ∀ operation ∈ operations, operation.isPlay) :
    List.Forall₂ (StuckReply fault) operations (machine.replies operations) := by
  -- The reason of the failure is the invariant, since no key and no generator takes part in it.
  induction operations generalizing machine with
  | nil => exact .nil
  | cons operation rest inductionHypothesis =>
      obtain ⟨reply, next⟩ := apply_stuck stuck operation (play operation (by simp))
      have others := inductionHypothesis next fun other inside => play other (by simp [inside])
      exact .cons reply others

end Stuck

section Final

/-- An instruction that fails changes nothing, also where it works in place, and a step that fails
changes at most the fetched word. -/
structure Atomic (machine : Machine) (fault : Fault) : Prop where
  step : machine.step.result = .error fault →
    machine.step.machine = { machine with fetched := machine.step.machine.fetched }
  execute (word : Word) : (machine.execute word).result = .error fault →
    (machine.execute word).machine = machine
  handle (family : Nibble) (word : Word) : (machine.handle family word).result = .error fault →
    (machine.handle family word).machine = machine
  stepInPlace (after : Bare) : Bare.step machine.bare = .error (.fault fault) after →
    after = { machine.bare with fetched := after.fetched }
  executeInPlace (word : Word) (after : Bare) :
    Bare.execute word machine.bare = .error (.fault fault) after → after = machine.bare
  handleInPlace (family : Nibble) (word : Word) (after : Bare) :
    Bare.handle family.val word machine.bare = .error (.fault fault) after → after = machine.bare

/-- A failure is atomic, and whatever is played after a failed step, every step repeats it. -/
theorem failure_final (machine : Machine) (fault : Fault) :
    Atomic machine fault ∧
    (machine.step.result = .error fault →
      ∀ operations : List Operation, (∀ operation ∈ operations, operation.isPlay) →
        List.Forall₂ (StuckReply fault) operations (machine.step.machine.replies operations)) := by
  refine ⟨?_, ?_⟩
  · exact ⟨machine.step_atomic fault, machine.execute_atomic fault, machine.handle_atomic fault,
      machine.step_inPlace fault, machine.execute_inPlace fault, machine.handle_inPlace fault⟩
  · intro failed operations play
    have kept := stepFault?_congr (machine.keepFetched_sameFaults machine.step.machine.fetched)
    refine replies_stuck ?_ operations play
    rw [machine.step_atomic fault failed]
    exact kept.trans ((machine.step_error_iff fault).mp failed)

/-- The word `FFFF` has no instruction. -/
theorem failure_final_unsupported :
    let machine := (Machine.initial {} (.arithmetic 0 1)).load
      ⟨"", [0xFF, 0xFF], by decide, by decide⟩
    let fault := Fault.word (.unsupported 0xFFFF)
    let operations := [Operation.tick, .setKey 3 true, .step]
    machine.step.machine = { machine with fetched := machine.step.machine.fetched } ∧
    (machine.execute 0xFFFF).machine = machine ∧
    (machine.handle 0x5 0xFFFF).machine = machine ∧
    List.Forall₂ (StuckReply fault) operations (machine.step.machine.replies operations) := by
  intro machine fault operations
  have unsupported (family : Nibble) (refused : Instruction.Refused family 0xFFFF) :
      machine.handleFault? family 0xFFFF = some fault :=
    (machine.handleFault?_eq_some_iff family 0xFFFF fault).mpr (.inl ⟨rfl, refused⟩)
  have failed : machine.step.result = .error fault := by
    have first : Word.ofBytes 0xFF 0xFF = 0xFFFF := by decide
    have reason := (Machine.initial {} (.arithmetic 0 1)).stepFault?_load
      ⟨"", [0xFF, 0xFF], by decide, by decide⟩ (by decide)
    rw [step_error_iff, reason]
    change machine.executeFault? (Word.ofBytes 0xFF 0xFF) = some fault
    rw [first]
    exact unsupported 0xF (by decide)
  have executed : (machine.execute 0xFFFF).result = .error fault :=
    (machine.execute_error_iff 0xFFFF fault).mpr (unsupported 0xF (by decide))
  have handled : (machine.handle 0x5 0xFFFF).result = .error fault := by
    obtain ⟨found, reason, done⟩ | ⟨_, _, _, reason, -⟩ := machine.handle_cases 0x5 0xFFFF
    · rw [unsupported 0x5 (by decide)] at reason
      cases reason
      rw [done]
    · rw [unsupported 0x5 (by decide)] at reason
      cases reason
  obtain ⟨atomic, stuck⟩ := failure_final machine fault
  exact ⟨atomic.step failed, atomic.execute 0xFFFF executed, atomic.handle 0x5 0xFFFF handled,
    stuck failed operations (by decide)⟩

end Final

end Machine
end ChipEight
