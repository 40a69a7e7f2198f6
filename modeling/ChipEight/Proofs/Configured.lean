/-
This file shows that no operation changes the settings or the period of the cadence.
-/
import ChipEight.Machine.History
import ChipEight.Proofs.Execution

namespace ChipEight

/-- The settings fix the threshold, and neither of them changes. -/
structure Machine.Configured (config : Config) (machine : Machine) : Prop where
  settings : machine.config = config
  threshold : machine.cadence.threshold = max config.cyclesPerTick 1

namespace Machine

section Settings

/-- Two machines agree on the settings and on the period of the cadence. -/
structure SameSettings (before after : Machine) : Prop where
  config : after.config = before.config
  threshold : after.cadence.threshold = before.cadence.threshold

theorem Kept.sameSettings {before after : Machine} (kept : Kept before after) :
    SameSettings before after :=
  ⟨kept.config, congrArg Cadence.threshold kept.cadence⟩

variable (machine : Machine)

theorem settle_sameSettings (signal : Signal) :
    SameSettings machine (machine.settle signal).1 := by
  have ticked : SameSettings machine machine.tickTimers := by
    unfold tickTimers
    split <;> exact ⟨rfl, machine.cadence.advanceThreshold⟩
  cases signal with
  | none | draw => exact ticked
  | wait =>
      by_cases ticking : machine.config.tickWhileBlocked
      · simpa only [settle, if_pos ticking] using ticked
      · simpa only [settle, if_neg ticking] using SameSettings.mk rfl rfl

theorem step_sameSettings : SameSettings machine machine.step.machine := by
  obtain ⟨fault, word, -, -, failed⟩ |
      ⟨word, _, handled, move, -, -, -, -, performed, shape, done⟩ := machine.step_cases
  · rw [failed]
    exact ⟨rfl, rfl⟩
  · have executed := performed.toKept.sameSettings
    have settled := settle_sameSettings (handled.advance move) (machine.executeSignal word)
    rw [done, shape]
    exact ⟨settled.config.trans executed.config, settled.threshold.trans executed.threshold⟩

theorem tick_sameSettings : SameSettings machine machine.tick.machine := by
  have stepped := machine.step_sameSettings
  unfold tick
  split
  · rename_i shape
    rw [shape] at stepped
    exact stepped
  · rename_i shape
    rw [shape] at stepped
    exact ⟨stepped.config, stepped.threshold⟩

theorem execute_sameSettings (word : Word) :
    SameSettings machine (machine.execute word).machine := by
  obtain ⟨fault, -, failed⟩ | ⟨_, handled, move, -, -, done, performed⟩ :=
    machine.execute_cases word
  · rw [failed]
    exact ⟨rfl, rfl⟩
  · have executed := performed.toKept.sameSettings
    rw [done]
    exact ⟨executed.config, executed.threshold⟩

theorem handle_sameSettings (family : Nibble) (word : Word) :
    SameSettings machine (machine.handle family word).machine := by
  obtain ⟨fault, -, failed⟩ | ⟨_, handled, move, -, -, done, performed⟩ :=
    machine.handle_cases family word
  · rw [failed]
    exact ⟨rfl, rfl⟩
  · rw [done]
    exact performed.toKept.sameSettings

/-- No operation changes the settings or the threshold. -/
theorem apply_sameSettings (operation : Operation) :
    SameSettings machine (machine.apply operation).machine := by
  cases operation with
  | load name data =>
      simp only [apply, applyLoad]
      split <;> exact ⟨rfl, rfl⟩
  | loadFile files path =>
      simp only [apply, applyLoadFile, loadFile]
      split <;> exact ⟨rfl, rfl⟩
  | step => exact machine.step_sameSettings
  | tick => exact machine.tick_sameSettings
  | execute word => exact machine.execute_sameSettings word
  | handle family word => exact machine.handle_sameSettings family word
  | advance | setKeypad | setKey | toggleKey | setGenerator | takeDirty | reset =>
      exact ⟨rfl, rfl⟩

theorem after_sameSettings (operations : List Operation) :
    SameSettings machine (machine.after operations) := by
  induction operations generalizing machine with
  | nil => exact ⟨rfl, rfl⟩
  | cons operation rest inductionHypothesis =>
      have next := machine.apply_sameSettings operation
      have others := inductionHypothesis (machine.apply operation).machine
      exact ⟨others.config.trans next.config, others.threshold.trans next.threshold⟩

theorem replies_sameSettings (operations : List Operation) :
    ∀ reply ∈ machine.replies operations, SameSettings machine reply.machine := by
  induction operations generalizing machine with
  | nil => simp
  | cons operation rest inductionHypothesis =>
      have next := machine.apply_sameSettings operation
      intro reply inside
      rw [replies_cons, List.mem_cons] at inside
      obtain rfl | inside := inside
      · exact next
      · have others := inductionHypothesis _ reply inside
        exact ⟨others.config.trans next.config, others.threshold.trans next.threshold⟩

end Settings

section Configured

variable {config : Config} {machine : Machine}

theorem initial_configured (config : Config) (source : Generator) :
    Configured config (initial config source) :=
  ⟨rfl, Cadence.ofPeriodThreshold config.cyclesPerTick⟩

theorem Configured.of_sameSettings {after : Machine} (configured : Configured config machine)
    (same : SameSettings machine after) : Configured config after :=
  ⟨same.config.trans configured.settings, same.threshold.trans configured.threshold⟩

theorem apply_configured (configured : Configured config machine) (operation : Operation) :
    Configured config (machine.apply operation).machine :=
  configured.of_sameSettings (machine.apply_sameSettings operation)

theorem after_configured (configured : Configured config machine)
    (operations : List Operation) : Configured config (machine.after operations) :=
  configured.of_sameSettings (machine.after_sameSettings operations)

theorem replies_configured (configured : Configured config machine)
    (operations : List Operation) :
    ∀ reply ∈ machine.replies operations, Configured config reply.machine := fun reply inside =>
  configured.of_sameSettings (machine.replies_sameSettings operations reply inside)

end Configured

end Machine

end ChipEight
