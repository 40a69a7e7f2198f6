/-
This file shows that a bare machine keeps its sizes and never panics.
-/
import ChipEight.Proofs.Bare.Operations
import ChipEight.Proofs.Configured

namespace ChipEight.Bare

/-- The sizes that all accesses rely on. -/
structure WellFormed (config : Config) (bare : Bare) : Prop where
  memory : bare.memory.size = 4096
  registers : bare.registers.size = 16
  rows : bare.display.size = 32
  columns : ∀ row ∈ bare.display, row.size = 64
  stack : bare.stack.size ≤ 16
  threshold : bare.threshold = max config.cyclesPerTick 1
  cycle : bare.cycle < bare.threshold

theorem bare_wellFormed {config : Config} {machine : Machine}
    (configured : machine.Configured config) : WellFormed config machine.bare where
  memory := by simp [Machine.bare]
  registers := by simp [Machine.bare]
  rows := by simp [Machine.bare, Display.frame]
  columns := by
    intro row inside
    obtain ⟨y, rfl⟩ := Array.mem_ofFn.mp inside
    simp
  stack := by simpa [Machine.bare] using machine.stack.bounded
  threshold := configured.threshold
  cycle := machine.cadence.below

/-- From the start on, every operation succeeds or reports its fault, and every state that is
reached has the right sizes. -/
theorem replies_wellFormed (config : Config) (source : Generator) (operations : List Operation) :
    ∃ start replies, initial config source = .ok start ∧ WellFormed config start ∧
      start.replies operations = .ok replies ∧
      (∀ reply ∈ replies, WellFormed config reply.bare) ∧
      replies = ((Machine.initial config source).replies operations).map ChipEight.Reply.bare := by
  have configured := Machine.initial_configured config source
  refine ⟨_, _, initial_bare config source, bare_wellFormed configured,
    replies_bare _ operations, ?_, rfl⟩
  intro reply inside
  obtain ⟨typed, member, rfl⟩ := List.mem_map.mp inside
  exact bare_wellFormed (Machine.replies_configured configured operations typed member)

end ChipEight.Bare
