/-
This file compares the tally of a run with the plain loop of steps and with the run of a clock.
-/
import ChipEight.Proofs.Loop

namespace ChipEight

namespace Machine

section Tallied

variable {machine : Machine}

/-- The step with this index waits for a key. -/
def blocksAt (machine : Machine) (index : Nat) : Bool :=
  match machine.outcome index with
  | .ok (.blocked _) => true
  | _ => false

/-- The steps up to the first failure are made and counted, and the positions of their beeps begin at
the given one. -/
structure Tallied (machine : Machine) (position count : Nat) (tally : Tally) : Prop where
  left : tally.machine = machine.stepped (min count (machine.completed count + 1))
  succeeded : tally.executed + tally.blocked = machine.completed count
  blocked : tally.blocked = (List.range (machine.completed count)).countP machine.blocksAt
  beeps : tally.beeps =
    ((List.range (machine.completed count)).filter machine.beepsAt).map (position + ·)
  fault : tally.fault? =
    if machine.completed count < count then machine.fault? (machine.completed count) else none
  events : tally.events =
    machine.events (List.replicate (min count (machine.completed count + 1)) .step)

theorem tallyFrom_failed {fault : Fault} (failed : machine.step.result = .error fault)
    (position count : Nat) :
    machine.tallyFrom position (count + 1) =
      ⟨machine.step.machine, 0, 0, [], some fault, machine.stepEvents machine.step.result⟩ := by
  rw [tallyFrom]
  simp only [failed]

theorem tallyFrom_ok {step : Step} (done : machine.step.result = .ok step) (position count : Nat) :
    machine.tallyFrom position (count + 1) =
      .cons position step (machine.stepEvents machine.step.result)
        (machine.step.machine.tallyFrom (position + 1) count) := by
  rw [tallyFrom]
  simp only [done]

/-- A run whose first step fails ends with it. -/
theorem tallied_failed {fault : Fault} (failed : machine.step.result = .error fault)
    (position count : Nat) :
    Tallied machine position (count + 1)
      ⟨machine.step.machine, 0, 0, [], some fault, machine.stepEvents machine.step.result⟩ := by
  have completed := completed_failed failed (count + 1)
  have once : min (count + 1) (0 + 1) = 1 := min_eq_right (Nat.le_add_left 1 count)
  have found : machine.fault? 0 = some fault := by
    rw [fault?, show machine.outcome 0 = .error fault from failed]
  constructor
  · rw [completed, once]
    rfl
  · exact completed.symm
  · rw [completed]
    rfl
  · rw [completed]
    rfl
  · rw [completed, if_pos (Nat.succ_pos count), found]
  · rw [completed, once]
    exact (List.append_nil _).symm

/-- A step that succeeds is counted before the ones after it. -/
theorem Tallied.cons {step : Step} {position count : Nat} {rest : Tally}
    (tallied : Tallied machine.step.machine (position + 1) count rest)
    (done : machine.step.result = .ok step) :
    Tallied machine position (count + 1)
      (.cons position step (machine.stepEvents machine.step.result) rest) := by
  have completed := completed_succ done count
  have first : machine.outcome 0 = .ok step := done
  have calls : min (count + 1) (machine.step.machine.completed count + 1 + 1) =
      min count (machine.step.machine.completed count + 1) + 1 := Nat.add_min_add_right _ _ 1
  constructor
  · rw [completed, calls]
    exact tallied.left
  · rw [completed, ← tallied.succeeded]
    cases step <;> simp only [Tally.cons] <;> omega
  -- An index of the rest is one less than the index of the same step in the whole run.
  · rw [completed, List.range_succ_eq_map, List.countP_cons, List.countP_map]
    refine congrArg₂ (· + ·) tallied.blocked ?_
    rw [blocksAt, first]
    cases step <;> rfl
  · have later : rest.beeps = (((List.range (machine.step.machine.completed count)).map
        Nat.succ).filter machine.beepsAt).map (position + ·) := by
      rw [tallied.beeps, List.filter_map, List.map_map]
      refine List.map_congr_left fun index _ => ?_
      exact Nat.add_right_comm position 1 index
    have sounds : machine.beepsAt 0 = step.beep := by rw [beepsAt, first]
    rw [completed, List.range_succ_eq_map, List.filter_cons, sounds]
    simp only [Tally.cons, later]
    split <;> rfl
  · rw [completed]
    exact tallied.fault.trans (if_congr Nat.succ_lt_succ_iff.symm rfl rfl)
  · rw [completed, calls, List.replicate_succ]
    exact congrArg _ tallied.events

theorem tallied_tallyFrom (machine : Machine) (position count : Nat) :
    Tallied machine position count (machine.tallyFrom position count) := by
  -- Each step hands its machine and the next position on to the steps after it.
  induction count generalizing machine position with
  | zero =>
      have completed := machine.completed_zero
      exact ⟨rfl, completed.symm, by rw [completed]; rfl, by rw [completed]; rfl, rfl, rfl⟩
  | succ count inductionHypothesis =>
      cases outcome : machine.step.result with
      | error fault =>
          rw [tallyFrom_failed outcome]
          exact tallied_failed outcome position count
      | ok step =>
          rw [tallyFrom_ok outcome]
          exact (inductionHypothesis machine.step.machine (position + 1)).cons outcome

end Tallied

section Agreement

/-- The tally of a run, said in terms of the plain loop. A clock that runs the same machine calls as
often, leaves it behind with its mark taken, and sounds and fails alike. -/
structure Agrees (machine : Machine) (count : Nat) (tally : Tally) (run : Run) : Prop where
  tallied : Tallied machine 0 count tally
  calls : run.calls = tally.executed + tally.blocked + tally.fault?.toList.length
  left : run.machine = tally.machine.clearDirty
  beeps : run.beeps = tally.beeps.length
  waits : run.wait.1 = tally.fault?

/-- A tally agrees with the plain loop, and with the clock if no frame was left to it. -/
theorem tally_agrees (machine : Machine) (taken : machine.dirty = false) (count : Nat) :
    Agrees machine count (machine.tally count) (machine.run count) := by
  have tallied := machine.tallied_tallyFrom 0 count
  have shadows : Shadows machine machine := ⟨⟨machine.dirty, rfl⟩, taken⟩
  have forwards := ticks_forwards shadows count
  have faults : (machine.ticks count).faults = (machine.tally count).fault?.toList := by
    rw [forwards.faults, tally, tallied.fault]
    split <;> rfl
  refine ⟨tallied, ?_, ?_, ?_, ?_⟩
  · refine forwards.calls.trans ?_
    rw [tally, tallied.succeeded, tallied.fault]
    obtain short | full := (machine.completed_le count).lt_or_eq
    · obtain ⟨fault, stop⟩ := machine.outcome_completed count short
      rw [min_eq_right short, if_pos short, fault?, stop]
      rfl
    · rw [full, if_neg (lt_irrefl count), min_eq_left (Nat.le_succ count)]
      rfl
  · rw [tally, tallied.left, ← forwards.calls]
    exact forwards.machine
  · rw [tally, tallied.beeps, List.length_map, ← List.countP_eq_length_filter]
    exact forwards.beeps
  · change (machine.ticks count).faults.head? = _
    rw [faults]
    cases (machine.tally count).fault? <;> rfl

end Agreement

end Machine
end ChipEight
