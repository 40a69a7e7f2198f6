/-
This file compares the run of a clock with a plain loop of steps.
-/
import Mathlib.Data.ENat.Lattice
import Mathlib.Data.List.Basic
import ChipEight.Proofs.Lockstep
import ChipEight.Proofs.Outcome
import ChipEight.Runner

namespace ChipEight

namespace Machine

section Steps

variable (machine : Machine)

/-- The machine after so many steps; a step that fails leaves its machine behind too. -/
def stepped (count : Nat) : Machine :=
  (fun machine => machine.step.machine)^[count] machine

/-- The result of the step with this index. -/
def outcome (index : Nat) : Except Fault Step :=
  (machine.stepped index).step.result

/-- The index of the first step that fails is infinite if no step does. -/
noncomputable def firstFailure : ℕ∞ :=
  sInf {index : ℕ∞ | ∃ count : Nat, index = count ∧ (machine.outcome count).isOk = false}

/-- The steps before the first failure and the limit. -/
noncomputable def completed (limit : Nat) : Nat :=
  (min (limit : ℕ∞) machine.firstFailure).toNat

/-- A word that clears or draws shows the display right after it. -/
def frame? (index : Nat) : Option Display :=
  let before := machine.stepped index
  if before.nextWord = 0x00E0 ∨ before.nextWord.family = 0xD then some before.step.machine.display
  else none

/-- The step with this index asks for a beep. -/
def beepsAt (index : Nat) : Bool :=
  match machine.outcome index with
  | .ok step => step.beep
  | .error _ => false

/-- The fault of the step with this index. -/
def fault? (index : Nat) : Option Fault :=
  match machine.outcome index with
  | .ok _ => none
  | .error fault => some fault

theorem stepped_next (count : Nat) :
    machine.stepped (count + 1) = (machine.stepped count).step.machine :=
  Function.iterate_succ_apply' _ count machine

theorem le_firstFailure_iff (count : Nat) :
    (count : ℕ∞) ≤ machine.firstFailure ↔ ∀ index < count, (machine.outcome index).isOk := by
  rw [firstFailure, le_sInf_iff]
  constructor
  · intro bound index below
    by_contra failing
    have reached := bound index ⟨index, rfl, by simpa using failing⟩
    exact absurd (Nat.cast_le.mp reached) (by omega)
  · rintro fine _ ⟨index, rfl, failing⟩
    rw [Nat.cast_le]
    by_contra below
    rw [fine index (by omega)] at failing
    cases failing

theorem le_completed_iff (limit count : Nat) :
    count ≤ machine.completed limit ↔
      count ≤ limit ∧ ∀ index < count, (machine.outcome index).isOk := by
  have finite : min (limit : ℕ∞) machine.firstFailure ≠ ⊤ := by simp
  rw [← le_firstFailure_iff, completed, ← Nat.cast_le (α := ℕ∞), ENat.natCast_toNat finite,
    le_min_iff, Nat.cast_le]

theorem completed_le (limit : Nat) : machine.completed limit ≤ limit :=
  ((machine.le_completed_iff limit _).mp le_rfl).1

theorem completed_top (limit : Nat) (endless : machine.firstFailure = ⊤) :
    machine.completed limit = limit := by
  rw [completed, endless, min_eq_left le_top, ENat.toNat_natCast]

theorem completed_natCast (limit index : Nat) (first : machine.firstFailure = index) :
    machine.completed limit = min limit index := by
  rw [completed, first, ← Nat.mono_cast.map_min, ENat.toNat_natCast]

/-- The first failure lies before the limit exactly if fewer steps are completed. -/
theorem firstFailure_lt_iff (limit : Nat) :
    machine.firstFailure < limit ↔ machine.completed limit < limit := by
  cases first : machine.firstFailure with
  | top => simp [machine.completed_top limit first]
  | coe index => simp [machine.completed_natCast limit index first]

theorem firstFailure_of_lt (limit : Nat) (short : machine.completed limit < limit) :
    machine.firstFailure = machine.completed limit := by
  cases first : machine.firstFailure with
  | top =>
      rw [machine.completed_top limit first] at short
      omega
  | coe index =>
      rw [machine.completed_natCast limit index first] at short ⊢
      rw [min_eq_right (by omega)]

/-- A run short of its limit stops at a step that fails. -/
theorem outcome_completed (limit : Nat) (short : machine.completed limit < limit) :
    ∃ fault, machine.outcome (machine.completed limit) = .error fault := by
  cases stop : machine.outcome (machine.completed limit) with
  | error fault => exact ⟨fault, rfl⟩
  | ok step =>
      have further : machine.completed limit + 1 ≤ machine.completed limit := by
        refine (machine.le_completed_iff limit _).mpr ⟨short, fun index below => ?_⟩
        obtain earlier | rfl := Nat.lt_succ_iff_lt_or_eq.mp below
        · exact ((machine.le_completed_iff limit _).mp le_rfl).2 index earlier
        · rw [stop]
          rfl
      omega

theorem completed_zero : machine.completed 0 = 0 :=
  Nat.le_zero.mp (machine.completed_le 0)

variable {machine}

theorem completed_failed {fault : Fault} (failed : machine.step.result = .error fault)
    (limit : Nat) : machine.completed limit = 0 := by
  by_contra positive
  have first := ((machine.le_completed_iff limit 1).mp (by omega)).2 0 (by omega)
  change machine.step.result.isOk = true at first
  rw [failed] at first
  cases first

theorem completed_succ {step : Step} (done : machine.step.result = .ok step) (limit : Nat) :
    machine.completed (limit + 1) = machine.step.machine.completed limit + 1 := by
  have first : (machine.outcome 0).isOk := by
    change machine.step.result.isOk = true
    rw [done]
    rfl
  refine eq_of_forall_le_iff fun count => ?_
  rw [le_completed_iff]
  cases count with
  | zero => simp
  | succ count =>
      rw [Nat.add_le_add_iff_right, Nat.add_le_add_iff_right, le_completed_iff]
      refine and_congr_right fun _ => ?_
      constructor
      · intro fine index below
        exact fine (index + 1) (by omega)
      · intro fine index below
        cases index with
        | zero => exact first
        | succ index => exact fine index (by omega)

end Steps

section Dirty

/-- Only the mark of a changed display is set. -/
def setDirty (machine : Machine) (dirty : Bool) : Machine :=
  { machine with dirty := dirty }

theorem dirty_liesAside : LiesAside setDirty :=
  ⟨fun aside dirty => { aside with dirty := dirty }, fun _ _ => rfl⟩

theorem perform_setDirty (machine : Machine) (dirty : Bool) (instruction : Instruction)
    (other : instruction.isPlain = false) :
    Attempt.Related (SameBut setDirty) (machine.perform instruction)
      ((machine.setDirty dirty).perform instruction) := by
  cases instruction with
  | clear | draw => exact ⟨rfl, true, rfl⟩
  | random | skipIfPressed | skipIfReleased => exact ⟨rfl, dirty, rfl⟩
  | awaitKey x =>
      simp only [perform, setDirty]
      cases machine.keypad.highest? <;> exact ⟨rfl, dirty, rfl⟩
  | _ => cases other

theorem dirty_lockstep : StepLockstep (fun _ => True) (SameBut setDirty) :=
  stepLockstep_of_liesAside dirty_liesAside (fun _ dirty _ => ⟨dirty, rfl⟩)
    fun machine dirty instruction _ => machine.perform_setDirty dirty instruction

/-- The plain loop leaves the mark alone that the clock takes. -/
structure Shadows (plain ticked : Machine) : Prop where
  same : SameBut setDirty plain ticked
  taken : ticked.dirty = false

theorem Shadows.eq {plain ticked : Machine} (shadows : Shadows plain ticked) :
    ticked = plain.clearDirty := by
  obtain ⟨⟨dirty, rfl⟩, rfl⟩ := shadows
  rfl

theorem draws_iff {machine : Machine} {instruction : Instruction}
    (next : machine.instruction? = some instruction) :
    instruction.draws = true ↔ machine.nextWord = 0x00E0 ∨ machine.nextWord.family = 0xD := by
  obtain ⟨-, word, fetched, decoded⟩ := (machine.instruction?_eq_some_iff _).mp next
  have found : word = machine.nextWord := by
    rw [fetch_eq] at fetched
    split at fetched
    · exact (Except.ok.inj fetched).symm
    · cases fetched
  have encodes := (Instruction.decode_eq_some_iff _ _ _).mp decoded
  have clear := family_clear word
  rw [← found]
  cases instruction <;> simp only [Instruction.draws] <;> grind [Instruction.Encodes]

/-- Without a frame, the display stays. -/
theorem performDisplay_of_not_draws {machine : Machine} {instruction : Instruction}
    (still : instruction.draws = false) : machine.performDisplay instruction = machine.display := by
  cases instruction with
  | clear | draw => cases still
  | _ => rfl

/-- A tick makes the plain step and forwards a frame if the word clears or draws. -/
theorem tick_shadows {plain ticked : Machine} (shadows : Shadows plain ticked) :
    (∃ fault, plain.step.result = .error fault ∧ ticked.tick.result = .error fault ∧
      ticked.tick.forwarded = {} ∧ plain.step.machine.display = plain.display ∧
      Shadows plain.step.machine ticked.tick.machine) ∨
    (∃ step, plain.step.result = .ok step ∧ ticked.tick.result = .ok step ∧
      ticked.tick.forwarded = { frame? := plain.frame? 0, beep := step.beep } ∧
      (plain.frame? 0).getD plain.display = plain.step.machine.display ∧
      Shadows plain.step.machine ticked.tick.machine) := by
  obtain ⟨⟨dirty, rfl⟩, taken⟩ := shadows
  obtain rfl : dirty = false := taken
  have same : SameBut setDirty plain (plain.setDirty false) := ⟨false, rfl⟩
  obtain ⟨result, kept, after⟩ := step_lockstep dirty_lockstep same fun _ _ => trivial
  obtain ⟨fault, word, failed⟩ | ⟨instruction, moved, step, next, done, effects⟩ :=
    (plain.setDirty false).step_moved
  · rw [failed] at result after
    refine .inl ⟨fault, result.symm, ?_, ?_, ?_, ⟨kept, ?_⟩, ?_⟩
    · rw [tick, failed]
    · rw [tick, failed]
    · exact (congrArg Machine.display after :).symm
    · rw [tick, failed]
      exact after
    · rw [tick, failed]
      rfl
  · rw [done] at result after
    have marked : moved.dirty = instruction.draws := by
      rw [effects.dirty]
      exact Bool.or_false _
    have shown : moved.display = plain.step.machine.display :=
      (congrArg Machine.display after :)
    have next : plain.instruction? = some instruction := next
    have word := draws_iff next
    have frame : plain.frame? 0 = if moved.dirty then some moved.display else none := by
      rw [marked, shown]
      exact if_congr word.symm rfl rfl
    refine .inr ⟨step, result.symm, ?_, ?_, ?_, ⟨false, ?_⟩, ?_⟩
    · rw [tick, done]
    · rw [tick, done, frame]
    · rw [frame, ← shown, marked]
      cases drawing : instruction.draws with
      | true => rfl
      | false => exact (effects.display.trans (performDisplay_of_not_draws drawing)).symm
    · rw [tick, done]
      exact (congrArg Machine.clearDirty after :)
    · rw [tick, done]
      rfl

end Dirty

section Clock

/-- The clock makes the plain steps up to the first failure, and forwards what each of them shows and
sounds. -/
structure Forwards (plain : Machine) (limit : Nat) (run : Run) : Prop where
  calls : run.calls = min limit (plain.completed limit + 1)
  machine : run.machine = (plain.stepped run.calls).clearDirty
  frames : run.frames = (List.range (plain.completed limit)).filterMap plain.frame?
  last : run.frames.getLast?.getD plain.display = run.machine.display
  beeps : run.beeps = (List.range (plain.completed limit)).countP plain.beepsAt
  faults : run.faults =
    if plain.completed limit < limit then (plain.fault? (plain.completed limit)).toList else []

theorem ticks_failed {machine : Machine} {fault : Fault}
    (failed : machine.tick.result = .error fault) (limit : Nat) :
    machine.ticks (limit + 1) =
      .cons machine.tick.forwarded (machine.stepEvents machine.tick.result)
        (.ending machine.tick.machine (some fault)) := by
  rw [ticks]
  simp only [failed]

theorem ticks_ok {machine : Machine} {step : Step} (done : machine.tick.result = .ok step)
    (limit : Nat) :
    machine.ticks (limit + 1) =
      .cons machine.tick.forwarded (machine.stepEvents machine.tick.result)
        (machine.tick.machine.ticks limit) := by
  rw [ticks]
  simp only [done]

theorem ticks_forwards {plain ticked : Machine} (shadows : Shadows plain ticked) (limit : Nat) :
    Forwards plain limit (ticked.ticks limit) := by
  -- The clock takes the mark after each tick, so the two machines only shadow each other.
  induction limit generalizing plain ticked with
  | zero =>
      have taken := shadows.eq
      refine ⟨?_, taken, ?_, (congrArg Machine.display taken :).symm, ?_, rfl⟩
      all_goals rw [completed_zero]; rfl
  | succ limit inductionHypothesis =>
      obtain ⟨fault, failed, failed', forwarded, still, next⟩ |
          ⟨step, done, done', forwarded, shown, next⟩ := tick_shadows shadows
      · have found : plain.fault? 0 = some fault := by
          rw [fault?, show plain.outcome 0 = .error fault from failed]
        rw [ticks_failed failed', forwarded]
        refine ⟨?_, next.eq, ?_, ?_, ?_, ?_⟩
        · rw [completed_failed failed]
          exact (min_eq_right (Nat.le_add_left 1 limit)).symm
        · rw [completed_failed failed]
          rfl
        · exact still.symm.trans (congrArg Machine.display next.eq :).symm
        · rw [completed_failed failed]
          rfl
        · rw [completed_failed failed, if_pos (by omega), found]
          rfl
      · have rest := inductionHypothesis next
        have sounds : plain.beepsAt 0 = step.beep := by
          rw [beepsAt, show plain.outcome 0 = .ok step from done]
        have count := completed_succ done limit
        rw [ticks_ok done', forwarded]
        refine ⟨?_, rest.machine, ?_, ?_, ?_, ?_⟩
        · rw [count]
          exact (congrArg (· + 1) rest.calls).trans (Nat.add_min_add_right _ _ 1).symm
        · rw [count, List.range_succ_eq_map, List.filterMap_eq_flatMap_toList, List.flatMap_cons,
            ← List.filterMap_eq_flatMap_toList, List.filterMap_map]
          exact congrArg _ rest.frames
        · refine Eq.trans ?_ rest.last
          change ((plain.frame? 0).toList ++ _).getLast?.getD plain.display = _
          rw [List.getLast?_append, Option.getD_or, ← shown]
          cases plain.frame? 0 <;> rfl
        · rw [count, List.range_succ_eq_map, List.countP_cons, List.countP_map, sounds]
          exact congrArg (· + _) rest.beeps
        · rw [count]
          exact rest.faults.trans (if_congr Nat.succ_lt_succ_iff.symm rfl rfl)

/-- The run of a clock, said in terms of the plain loop of steps and its first failure. -/
structure Looped (machine : Machine) (limit : Nat) (run : Run) : Prop where
  calls : (run.calls : ℕ∞) = min (limit : ℕ∞) (machine.firstFailure + 1)
  /-- The machine is left behind after the completed steps, but for the word that was fetched. -/
  state : run.machine = { machine.stepped (machine.completed limit) with
    dirty := false
    fetched := run.machine.fetched }
  /-- With the step that fails, it is the same machine altogether. -/
  called : run.machine = (machine.stepped run.calls).clearDirty
  frames : run.frames = (List.range (machine.completed limit)).filterMap machine.frame?
  last : run.frames.getLast?.getD .blank = run.machine.display
  beeps : run.beeps = (List.range (machine.completed limit)).countP machine.beepsAt
  waits : run.wait.1.isSome ↔ machine.firstFailure < limit
  fault (fault : Fault) : run.wait.1 = some fault →
    ∃ index : Nat, machine.firstFailure = index ∧ machine.outcome index = .error fault
  once : run.wait.2.wait.1 = none

theorem calls_natCast (machine : Machine) (limit : Nat) :
    ((min limit (machine.completed limit + 1) : Nat) : ℕ∞) =
      min (limit : ℕ∞) (machine.firstFailure + 1) := by
  cases first : machine.firstFailure with
  | top => simp [machine.completed_top limit first]
  | coe index =>
      have count : min limit (min limit index + 1) = min limit (index + 1) := by omega
      rw [machine.completed_natCast limit index first, count, Nat.mono_cast.map_min]
      rfl

/-- The failing step changes nothing but the fetched word. -/
theorem stepped_calls (machine : Machine) (limit : Nat) :
    ∃ word, machine.stepped (min limit (machine.completed limit + 1)) =
      (machine.stepped (machine.completed limit)).keepFetched word := by
  obtain short | full := (machine.completed_le limit).lt_or_eq
  · obtain ⟨fault, stop⟩ := machine.outcome_completed limit short
    rw [min_eq_right short, stepped_next]
    obtain ⟨_, word, failed⟩ | ⟨_, _, _, _, done, _⟩ :=
      (machine.stepped (machine.completed limit)).step_moved
    · exact ⟨word, congrArg Attempt.machine failed⟩
    · rw [outcome, done] at stop
      cases stop
  · rw [full, min_eq_left (Nat.le_succ limit)]
    exact ⟨_, rfl⟩

theorem looped_of_forwards {machine : Machine} {limit : Nat} {run : Run}
    (blank : machine.display = .blank) (forwards : Forwards machine limit run) :
    Looped machine limit run := by
  obtain ⟨word, left⟩ := machine.stepped_calls limit
  refine ⟨?_, ?_, forwards.machine, forwards.frames, ?_, forwards.beeps, ?_, ?_, ?_⟩
  · rw [forwards.calls, calls_natCast]
  · rw [forwards.machine, forwards.calls, left]
    rfl
  · rw [← blank]
    exact forwards.last
  · rw [firstFailure_lt_iff, Run.wait, forwards.faults]
    by_cases short : machine.completed limit < limit
    · obtain ⟨fault, stop⟩ := machine.outcome_completed limit short
      simp [short, fault?, stop]
    · simp [short]
  · intro fault sent
    rw [Run.wait, forwards.faults] at sent
    by_cases short : machine.completed limit < limit
    · obtain ⟨found, stop⟩ := machine.outcome_completed limit short
      refine ⟨machine.completed limit, machine.firstFailure_of_lt limit short, ?_⟩
      simp only [short, if_true, fault?, stop] at sent
      rw [stop]
      exact congrArg Except.error (Option.some.inj sent)
    · simp [short] at sent
  · rw [Run.wait, Run.wait, forwards.faults]
    by_cases short : machine.completed limit < limit
    · rw [if_pos short]
      cases machine.fault? (machine.completed limit) <;> rfl
    · rw [if_neg short]
      rfl

/-- A clock that runs a new machine, with or without a program and with any keys pressed, forwards
exactly the effects of the plain steps. -/
theorem run_looped (config : Config) (source : Generator) (program : Option Rom) (keypad : Keypad)
    (limit : Nat) :
    let start := initial config source
    let machine := (program.elim start start.load).setKeypad keypad
    Looped machine limit (machine.run limit) := by
  intro start machine
  have fresh : machine.display = .blank ∧ machine.dirty = false := by
    cases program <;> exact ⟨rfl, rfl⟩
  have shadows : Shadows machine machine := ⟨⟨machine.dirty, rfl⟩, fresh.2⟩
  -- The announcement of the interval is an event and nothing else.
  obtain ⟨calls, kept, frames, last, beeps, faults⟩ := ticks_forwards shadows limit
  exact looped_of_forwards fresh.1 ⟨calls, kept, frames, last, beeps, faults⟩

end Clock

end Machine
end ChipEight
