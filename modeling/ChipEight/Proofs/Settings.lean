/-
This file replaces the settings of a machine and says which operations look at them.
-/
import ChipEight.Proofs.Cadence.Beat
import ChipEight.Proofs.Configured
import ChipEight.Proofs.Lockstep

namespace ChipEight

def Operator.shifts : Operator → Bool
  | .shiftRight | .shiftLeft => true
  | _ => false

def Instruction.shifts : Instruction → Bool
  | .combine operator _ _ => operator.shifts
  | _ => false

/-- The answer comes from a step that waits for a key. -/
def Answer.isBlocked : Answer → Bool
  | .stepped (.blocked _) => true
  | _ => false

/-- The cadence keeps its own period. -/
def Machine.withConfig (machine : Machine) (config : Config) : Machine :=
  { machine with config := config }

def Attempt.withConfig {A : Type} (config : Config) (attempt : Attempt A) : Attempt A :=
  { attempt with machine := attempt.machine.withConfig config }

def Reply.withConfig (config : Config) (reply : Reply) : Reply :=
  { reply with machine := reply.machine.withConfig config }

namespace Machine

section Instructions

variable (machine : Machine) (config : Config)

/-- Only a shift looks at the settings. -/
theorem combine_withConfig (operator : Operator) (x y : Nibble)
    (same : operator.shifts → config.shiftSetsFlag = machine.config.shiftSetsFlag) :
    (machine.withConfig config).combine operator x y =
      (machine.combine operator x y).withConfig config := by
  have flags (left right : UInt8) : operator.flag? config.shiftSetsFlag left right =
      operator.flag? machine.config.shiftSetsFlag left right := by
    cases operator with
    | shiftRight | shiftLeft => rw [same rfl]
    | _ => rfl
  simp only [combine]
  rw [show (machine.withConfig config).register = machine.register from rfl,
    show (machine.withConfig config).config = config from rfl, flags]
  split <;> rfl

theorem perform_withConfig (instruction : Instruction)
    (same : instruction.shifts → config.shiftSetsFlag = machine.config.shiftSetsFlag) :
    (machine.withConfig config).perform instruction =
      (machine.perform instruction).withConfig config := by
  cases instruction with
  | leave =>
      simp only [perform, withConfig]
      cases machine.stack.pop <;> rfl
  | call target =>
      simp only [perform, withConfig]
      cases machine.stack.push machine.counter <;> rfl
  | awaitKey x =>
      simp only [perform, withConfig]
      cases machine.keypad.highest? <;> rfl
  | selectGlyph x =>
      have same : (machine.withConfig config).register x = machine.register x := rfl
      simp only [perform, same]
      split <;> rfl
  | combine operator x y =>
      simp only [perform, combine_withConfig _ _ _ _ _ same]
      rfl
  | _ => rfl

theorem handle_withConfig (family : Nibble) (word : Word)
    (same : ∀ instruction ∈ Instruction.decode? family word, instruction.shifts →
      config.shiftSetsFlag = machine.config.shiftSetsFlag) :
    (machine.withConfig config).handle family word =
      (machine.handle family word).withConfig config := by
  unfold handle
  cases decoded : Instruction.decode? family word with
  | none => rfl
  | some instruction => exact machine.perform_withConfig config instruction (same _ decoded)

theorem execute_withConfig (word : Word)
    (same : ∀ instruction ∈ Instruction.decode? word.family word, instruction.shifts →
      config.shiftSetsFlag = machine.config.shiftSetsFlag) :
    (machine.withConfig config).execute word = (machine.execute word).withConfig config := by
  unfold execute
  rw [handle_withConfig _ _ _ _ same]
  rcases machine.handle word.family word with ⟨handled, fault | effect⟩ <;> rfl

end Instructions

section Steps

variable (machine : Machine) (config : Config)

theorem tickTimers_withConfig :
    (machine.withConfig config).tickTimers = machine.tickTimers.withConfig config := by
  rw [tickTimers_eq, tickTimers_eq]
  rfl

/-- Only a wait looks at the settings. -/
theorem settle_withConfig (signal : Signal)
    (same : signal = .wait → config.tickWhileBlocked = machine.config.tickWhileBlocked) :
    (machine.withConfig config).settle signal =
      ((machine.settle signal).1.withConfig config, (machine.settle signal).2) := by
  have beeps : (machine.withConfig config).beeps = machine.beeps := rfl
  cases signal with
  | none | draw => simp only [settle, tickTimers_withConfig, beeps]
  | wait =>
      have ticking : (machine.withConfig config).config.tickWhileBlocked =
        machine.config.tickWhileBlocked := same rfl
      simp only [settle, tickTimers_withConfig, beeps, ticking]
      split <;> rfl

theorem executeFetched_withConfig (word : Word)
    (shifts : ∀ instruction ∈ Instruction.decode? word.family word, instruction.shifts →
      config.shiftSetsFlag = machine.config.shiftSetsFlag)
    (waits : (Answer.ofStep (machine.executeFetched word).result).isBlocked →
      config.tickWhileBlocked = machine.config.tickWhileBlocked) :
    (machine.withConfig config).executeFetched word =
      (machine.executeFetched word).withConfig config := by
  have kept : (machine.withConfig config).keepFetched word =
    (machine.keepFetched word).withConfig config := rfl
  have settings := ((machine.keepFetched word).execute_sameSettings word).config
  unfold executeFetched at waits ⊢
  rw [kept, execute_withConfig (machine.keepFetched word) config word shifts]
  cases executes : (machine.keepFetched word).execute word with
  | mk executed result =>
      rw [executes] at settings waits
      cases result with
      | error fault => rfl
      | ok signal =>
          have same : signal = .wait →
              config.tickWhileBlocked = executed.config.tickWhileBlocked := by
            rintro rfl
            rw [settings]
            refine waits ?_
            simp only [settle]
            split <;> rfl
          simp only [Attempt.withConfig, settle_withConfig _ _ _ same]

theorem step_withConfig
    (shifts : ∀ instruction ∈ machine.instruction?, instruction.shifts →
      config.shiftSetsFlag = machine.config.shiftSetsFlag)
    (waits : (Answer.ofStep machine.step.result).isBlocked →
      config.tickWhileBlocked = machine.config.tickWhileBlocked) :
    (machine.withConfig config).step = machine.step.withConfig config := by
  have loads : (machine.withConfig config).loaded = machine.loaded := rfl
  have fetches : (machine.withConfig config).fetch = machine.fetch := rfl
  unfold step at waits ⊢
  rw [loads, fetches]
  by_cases loaded : machine.loaded
  · cases fetched : machine.fetch with
    | error fault =>
        simp only [loaded, if_true]
        rfl
    | ok word =>
        have decoded : ∀ instruction ∈ Instruction.decode? word.family word,
            instruction.shifts → config.shiftSetsFlag = machine.config.shiftSetsFlag :=
          fun instruction decoded => shifts instruction
            ((machine.instruction?_eq_some_iff instruction).mpr ⟨loaded, word, fetched, decoded⟩)
        simp only [loaded, fetched, if_true] at waits ⊢
        exact machine.executeFetched_withConfig config word decoded waits
  · simp only [loaded]
    rfl

end Steps

section Replies

variable (machine : Machine) (config : Config)

/-- An operation that neither shifts nor waits does not look at the settings. -/
theorem apply_withConfig (operation : Operation)
    (shifts : ∀ instruction ∈ machine.instructionOf? operation, instruction.shifts →
      config.shiftSetsFlag = machine.config.shiftSetsFlag)
    (waits : (machine.apply operation).answer.isBlocked →
      config.tickWhileBlocked = machine.config.tickWhileBlocked) :
    (machine.withConfig config).apply operation = (machine.apply operation).withConfig config := by
  cases operation with
  | load name data =>
      simp only [apply, applyLoad]
      cases Rom.ofData name data <;> rfl
  | loadFile files path =>
      simp only [apply, applyLoadFile, loadFile]
      cases Rom.ofFile files path <;> rfl
  | step =>
      simp only [apply, applyStep, step_withConfig _ _ shifts waits]
      rfl
  | tick =>
      have step := machine.step_withConfig config shifts fun blocked => waits (by
        rw [(machine.apply_step .tick rfl).1]
        exact blocked)
      simp only [apply, applyTick, tick, step]
      rcases machine.step with ⟨stepped, fault | step⟩ <;> rfl
  | execute word =>
      simp only [apply, applyExecute, execute_withConfig _ _ _ shifts]
      rfl
  | handle family word =>
      simp only [apply, applyHandle, handle_withConfig _ _ _ _ shifts]
      rfl
  | _ => rfl

/-- A run that neither shifts nor waits does not look at the settings. -/
theorem run_withConfig (operations : List Operation)
    (shifts : ∀ instruction ∈ machine.instructions operations, instruction.shifts →
      config.shiftSetsFlag = machine.config.shiftSetsFlag)
    (waits : ∀ reply ∈ machine.replies operations, reply.answer.isBlocked →
      config.tickWhileBlocked = machine.config.tickWhileBlocked) :
    (machine.withConfig config).replies operations =
        (machine.replies operations).map (Reply.withConfig config) ∧
      (machine.withConfig config).after operations =
        (machine.after operations).withConfig config := by
  induction operations generalizing machine with
  | nil => exact ⟨rfl, rfl⟩
  | cons operation rest inductionHypothesis =>
      rw [instructions, List.forall_mem_append] at shifts
      rw [replies_cons, List.forall_mem_cons] at waits
      have reply := machine.apply_withConfig config operation
        (fun instruction executed => shifts.1 instruction (Option.mem_toList.mpr executed)) waits.1
      have settings := (machine.apply_sameSettings operation).config
      obtain ⟨replies, after⟩ := inductionHypothesis _ (settings ▸ shifts.2) (settings ▸ waits.2)
      rw [replies_cons, replies_cons, List.map_cons, after_cons, after_cons, reply, ← replies,
        ← after]
      exact ⟨rfl, rfl⟩

end Replies

end Machine
end ChipEight
