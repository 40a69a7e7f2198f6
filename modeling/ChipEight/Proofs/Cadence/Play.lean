/-
This file says on which steps of a play the timers count down.
-/
import ChipEight.Proofs.Cadence.Beat
import ChipEight.Proofs.Configured
import ChipEight.Proofs.Period

namespace ChipEight.Machine

section Play

/-- So many steps have counted, and the cadence stands where they leave it. -/
structure InStep (config : Config) (count : Nat) (machine : Machine) : Prop
    extends Configured config machine where
  cycle : machine.cadence.cycle.toNat = count % config.period

variable {config : Config} {count : Nat} {machine : Machine}

theorem InStep.begun (inStep : InStep config count machine) :
    machine.cadence.cycle.toNat = count % machine.cadence.threshold.toNat := by
  rw [inStep.cycle, Config.period, inStep.threshold]

theorem InStep.isDue_iff (inStep : InStep config count machine) :
    machine.cadence.isDue ↔ config.period ∣ count + 1 := by
  rw [machine.cadence.isDue_iff_dvd count inStep.begun, Config.period, inStep.threshold]

/-- A play moves the cadence on exactly if its reply counts. -/
theorem apply_inStep (inStep : InStep config count machine) (operation : Operation)
    (play : operation.isPlay) :
    InStep config (count + ((machine.apply operation).counts config).toNat)
      (machine.apply operation).machine := by
  have configured := apply_configured inStep.toConfigured operation
  refine ⟨configured, ?_⟩
  have beat := machine.apply_beat operation play
  rw [inStep.settings] at beat
  obtain rest | beat := beat
  · rw [rest.cadence, rest.counts, ready_cadence, inStep.cycle]
    rfl
  · rw [beat.cadence, beat.counts, ready_cadence, machine.cadence.advance_begun count inStep.begun,
      Config.period, inStep.threshold]
    rfl

theorem after_inStep (inStep : InStep config count machine) (operations : List Operation)
    (play : ∀ operation ∈ operations, operation.isPlay) :
    InStep config (count + counted config (machine.replies operations))
      (machine.after operations) := by
  induction operations generalizing machine count with
  | nil => exact inStep
  | cons operation rest inductionHypothesis =>
      have next := apply_inStep inStep operation (play operation (by simp))
      have others := inductionHypothesis next fun other inside => play other (by simp [inside])
      rw [replies_cons, counted_cons, ← Nat.add_assoc]
      exact others

/-- The timers count down on the ticks only, and a beep is a tick of a sound timer above zero. -/
structure Timed (config : Config) (count : Nat) (ready : Machine) (reply : Reply) : Prop where
  delay : reply.machine.delay =
    if reply.ticks config (count + 1) then ready.delay.decrement else ready.delay
  sound : reply.machine.sound =
    if reply.ticks config (count + 1) then ready.sound.decrement else ready.sound
  beeps : reply.beeps = true ↔ reply.ticks config (count + 1) = true ∧ 0 < ready.sound.value

theorem apply_timed (inStep : InStep config count machine) (operation : Operation)
    (play : operation.isPlay) :
    Timed config count (machine.ready operation) (machine.apply operation) := by
  have due := inStep.isDue_iff
  rw [← ready_cadence machine operation] at due
  have beat := machine.apply_beat operation play
  rw [inStep.settings] at beat
  obtain rest | beat := beat
  · have still : (machine.apply operation).ticks config (count + 1) = false := by
      rw [Reply.ticks, rest.counts, Bool.false_and]
    refine ⟨?_, ?_, ?_⟩
    · simp only [still, rest.delay, Bool.false_eq_true, if_false]
    · simp only [still, rest.sound, Bool.false_eq_true, if_false]
    · simp only [still, rest.beeps, Bool.false_eq_true, false_and]
  · have ticking : (machine.apply operation).ticks config (count + 1) =
        (machine.ready operation).cadence.isDue := by
      rw [Reply.ticks, beat.counts, Bool.true_and, Bool.eq_iff_iff, due, decide_eq_true_iff]
    refine ⟨?_, ?_, ?_⟩
    · rw [ticking, beat.delay, tickTimers_delay]
    · rw [ticking, beat.sound, tickTimers_sound]
    · rw [ticking, beat.beeps, beeps, Timer.isActive, Bool.and_eq_true, decide_eq_true_iff]

/-- A play that does not count is no tick, so its ordinal does not matter. -/
theorem ticks_ordinal (reply : Reply) :
    reply.ticks config (count + (reply.counts config).toNat) = reply.ticks config (count + 1) := by
  unfold Reply.ticks
  cases reply.counts config <;> rfl

/-- Unless it is set, the delay timer falls by one on every tick, down to zero. -/
theorem after_delay (inStep : InStep config count machine) (operations : List Operation)
    (play : ∀ operation ∈ operations, operation.isPlay)
    (untouched : ∀ reply ∈ machine.replies operations, reply.executed 0x15 = false) :
    (machine.after operations).delay.value.toNat =
      machine.delay.value.toNat - ticked config count (machine.replies operations) := by
  -- The count goes along with the machine, so the rest of the play keeps its ordinals.
  induction operations generalizing machine count with
  | nil => rfl
  | cons operation rest inductionHypothesis =>
      rw [replies_cons, List.forall_mem_cons] at untouched
      rw [List.forall_mem_cons] at play
      have timed := apply_timed inStep operation play.1
      have next := apply_inStep inStep operation play.1
      have others := inductionHypothesis next play.2 untouched.2
      have fallen := timed.delay
      rw [(machine.ready_timers operation).1 untouched.1] at fallen
      rw [after_cons, others, replies_cons, ticked, ticks_ordinal, fallen]
      cases (machine.apply operation).ticks config (count + 1) with
      | false => simp
      | true => simp [Timer.decrementValue, Nat.sub_sub]

/-- Unless it is set, the sound timer beeps on every tick until it is zero. -/
theorem replies_beeps (inStep : InStep config count machine) (operations : List Operation)
    (play : ∀ operation ∈ operations, operation.isPlay)
    (untouched : ∀ reply ∈ machine.replies operations, reply.executed 0x18 = false) :
    (machine.replies operations).countP Reply.beeps =
      min machine.sound.value.toNat (ticked config count (machine.replies operations)) := by
  induction operations generalizing machine count with
  | nil => simp [ticked]
  | cons operation rest inductionHypothesis =>
      rw [replies_cons, List.forall_mem_cons] at untouched
      rw [List.forall_mem_cons] at play
      have timed := apply_timed inStep operation play.1
      have next := apply_inStep inStep operation play.1
      have others := inductionHypothesis next play.2 untouched.2
      have fallen := timed.sound
      have beeping := timed.beeps
      rw [(machine.ready_timers operation).2 untouched.1] at fallen beeping
      rw [UInt8.lt_iff_toNat_lt, UInt8.toNat_zero] at beeping
      rw [replies_cons, List.countP_cons, others, ticked, ticks_ordinal, fallen]
      cases ticking : (machine.apply operation).ticks config (count + 1) with
      | false =>
          have silent : ¬ (machine.apply operation).beeps = true := by simp [beeping, ticking]
          simp [silent]
      | true =>
          simp only [beeping, ticking, true_and, if_true, Timer.decrementValue, Bool.toNat_true]
          split <;> omega

end Play

section Paced

/-- After any play the cycle is the number of counting steps modulo the period, the next step times
the timers by its ordinal, and over any last segment of the play the timers fall by its ticks. -/
structure Paced (config : Config) (start : Machine) (operations : List Operation) : Prop where
  cycle : (start.after operations).cadence.cycle.toNat =
    counted config (start.replies operations) % config.period
  timed (operation : Operation) (stepping : operation.isStep) :
    Timed config (counted config (start.replies operations)) (start.after operations).instructed
      ((start.after operations).apply operation)
  delay (first second : List Operation) (segment : operations = first ++ second)
    (untouched : ∀ reply ∈ (start.after first).replies second, reply.executed 0x15 = false) :
    (start.after operations).delay.value.toNat =
      (start.after first).delay.value.toNat -
        ticked config (counted config (start.replies first)) ((start.after first).replies second)
  beeps (first second : List Operation) (segment : operations = first ++ second)
    (untouched : ∀ reply ∈ (start.after first).replies second, reply.executed 0x18 = false) :
    ((start.after first).replies second).countP Reply.beeps =
      min (start.after first).sound.value.toNat
        (ticked config (counted config (start.replies first)) ((start.after first).replies second))

theorem load_inStep {config : Config} {machine : Machine} (configured : Configured config machine)
    (rom : Rom) : InStep config 0 (machine.load rom) :=
  ⟨⟨configured.settings, configured.threshold⟩, (Nat.zero_mod _).symm⟩

theorem paced_of_inStep {config : Config} {start : Machine} (inStep : InStep config 0 start)
    (operations : List Operation) (play : ∀ operation ∈ operations, operation.isPlay) :
    Paced config start operations := by
  have reached (part : List Operation) (inside : ∀ operation ∈ part, operation.isPlay) :
      InStep config (counted config (start.replies part)) (start.after part) := by
    simpa only [Nat.zero_add] using after_inStep inStep part inside
  refine ⟨(reached operations play).cycle, ?_, ?_, ?_⟩
  · intro operation stepping
    have also : operation.isPlay := by
      cases operation <;> first | rfl | cases stepping
    have timed := apply_timed (reached operations play) operation also
    rwa [ready, if_pos stepping] at timed
  · rintro first second rfl untouched
    rw [List.forall_mem_append] at play
    rw [after_append]
    exact after_delay (reached first play.1) second play.2 untouched
  · rintro first second rfl untouched
    rw [List.forall_mem_append] at play
    exact replies_beeps (reached first play.1) second play.2 untouched

/-- The cadence paces every play after a load, and the periods zero and one are the same. -/
theorem cadence_exact (config : Config) (source : Generator) :
    (∀ history rom operations, (∀ operation ∈ operations, operation.isPlay) →
      Paced config (((initial config source).after history).load rom) operations) ∧
    (∀ operations,
      (initial { config with cyclesPerTick := 1 } source).replies operations =
        ((initial { config with cyclesPerTick := 0 } source).replies operations).map
          (Reply.withPeriod 1)) := by
  refine ⟨?_, ?_⟩
  · intro history rom operations play
    have configured := after_configured (initial_configured config source) history
    exact paced_of_inStep (load_inStep configured rom) operations play
  · intro operations
    rw [initial_zero, replies_withPeriod]

/-- The period of two makes every second step a tick. -/
theorem cadence_exact_two :
    Paced { cyclesPerTick := 2 }
      (((initial { cyclesPerTick := 2 } (.arithmetic 0 1)).after [.reset]).load
        ⟨"", [0xF0, 0x18, 0x12, 0x00], by decide, by decide⟩)
      [.step, .setKey 0xA true, .tick] :=
  (cadence_exact { cyclesPerTick := 2 } (.arithmetic 0 1)).1 [.reset]
    ⟨"", [0xF0, 0x18, 0x12, 0x00], by decide, by decide⟩ [.step, .setKey 0xA true, .tick]
    (by decide)

end Paced

end ChipEight.Machine
