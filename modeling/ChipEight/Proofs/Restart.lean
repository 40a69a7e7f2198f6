/-
This file shows that a reset and a load leave nothing of a history behind but the generator.
-/
import ChipEight.Proofs.Bare.Operations
import ChipEight.Proofs.Configured

namespace ChipEight

/-- The threshold alone decides what a cadence restarts as. -/
theorem Cadence.restart_eq_ofPeriod {cadence : Cadence} {period : UInt32}
    (threshold : cadence.threshold = max period 1) : cadence.restart = ofPeriod period := by
  rw [← ofPeriodThreshold] at threshold
  cases cadence
  cases threshold
  rfl

namespace Machine

section Fresh

variable {config : Config} {machine : Machine}

theorem reset_eq_initial (configured : Configured config machine) (source : Generator) :
    machine.reset = (initial config source).setGenerator machine.generator := by
  rw [reset, configured.settings, Cadence.restart_eq_ofPeriod configured.threshold]
  rfl

theorem load_eq_initial (configured : Configured config machine) (source : Generator) (rom : Rom) :
    machine.load rom = ((initial config source).load rom).setGenerator machine.generator := by
  have fresh := reset_eq_initial configured source
  have start := reset_eq_initial (initial_configured config source) source
  rw [load, fresh, load, start]
  rfl

end Fresh

section Forget

/-- A restarted machine is a fresh one with the generator that it had before. So it replies to
everything as the fresh one does if both get the same generator, and it does not matter which of the
two generators that is. -/
structure Forgets (machine restarted fresh : Machine) (action : Bare.Action Unit) : Prop where
  generator : restarted.generator = machine.generator
  same : restarted = fresh.setGenerator machine.generator
  renewed (operations : List Operation) :
    (restarted.setGenerator fresh.generator).replies operations = fresh.replies operations
  continued (operations : List Operation) :
    restarted.replies operations = (fresh.setGenerator machine.generator).replies operations
  /-- The action does the same where it works in place. -/
  inPlace : action machine.bare = .ok ⟨⟩ { fresh.bare with generator := machine.generator }

theorem Forgets.of_eq {machine restarted fresh : Machine} {action : Bare.Action Unit}
    (same : restarted = fresh.setGenerator machine.generator)
    (done : action machine.bare = .ok ⟨⟩ restarted.bare) :
    Forgets machine restarted fresh action := by
  subst same
  exact ⟨rfl, rfl, fun _ => rfl, fun _ => rfl, done⟩

/-- Whatever was done to a machine before, a reset and a load forget all of it but the generator. -/
theorem history_forgotten (config : Config) (source other : Generator)
    (history : List Operation) :
    let machine := (initial config source).after history
    let fresh := initial machine.config other
    Forgets machine machine.reset fresh Bare.reset ∧
      ∀ rom, Forgets machine (machine.load rom) (fresh.load rom) (Bare.load rom.name rom.data) := by
  intro machine fresh
  have configured : Configured config machine :=
    after_configured (initial_configured config source) history
  have settings : machine.config = config := configured.settings
  have start : fresh = initial config other := by rw [← settings]
  rw [start]
  refine ⟨.of_eq (reset_eq_initial configured other) (Bare.reset_bare machine), fun rom => ?_⟩
  exact .of_eq (load_eq_initial configured other rom) (Bare.load_bare machine rom)

end Forget

end Machine
end ChipEight
