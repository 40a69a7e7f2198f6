/-
This file counts the steps of a play and says what one step does to the timers.
-/
import ChipEight.Machine.History
import ChipEight.Proofs.Decoding
import ChipEight.Proofs.Execution

namespace ChipEight

section Count

/-- The period is the number of counting steps from one tick of the timers to the next. -/
def Config.period (config : Config) : Nat :=
  (max config.cyclesPerTick 1).toNat

/-- A step counts if it executed, and a blocked step counts if the settings say so. -/
def Step.counts (config : Config) : Step → Bool
  | .executed _ => true
  | .blocked _ => config.tickWhileBlocked

namespace Reply

/-- Only successful steps and ticks count. -/
def counts (config : Config) (reply : Reply) : Bool :=
  match reply.answer with
  | .stepped step => step.counts config
  | _ => false

def beeps (reply : Reply) : Bool :=
  match reply.answer with
  | .stepped step => step.beep
  | _ => false

/-- The step executed the member of the family `F` with this last byte. -/
def executed (byte : UInt8) (reply : Reply) : Bool :=
  match reply.answer with
  | .stepped _ => reply.machine.fetched.family == 0xF && reply.machine.fetched.byte == byte
  | _ => false

theorem counts_stepped (config : Config) {reply : Reply} {step : Step}
    (answer : reply.answer = .stepped step) : reply.counts config = step.counts config := by
  rw [counts, answer]

theorem beeps_stepped {reply : Reply} {step : Step} (answer : reply.answer = .stepped step) :
    reply.beeps = step.beep := by
  rw [beeps, answer]

/-- The timers tick on a counting step if the period divides its ordinal. -/
def ticks (config : Config) (ordinal : Nat) (reply : Reply) : Bool :=
  reply.counts config && decide (config.period ∣ ordinal)

end Reply

/-- The number of counting steps. -/
def counted (config : Config) (replies : List Reply) : Nat :=
  replies.countP (Reply.counts config)

/-- The number of ticks, where so many counting steps came before. -/
def ticked (config : Config) : Nat → List Reply → Nat
  | _, [] => 0
  | count, reply :: rest =>
      let next := count + (reply.counts config).toNat
      (reply.ticks config next).toNat + ticked config next rest

theorem counted_cons (config : Config) (reply : Reply) (rest : List Reply) :
    counted config (reply :: rest) = (reply.counts config).toNat + counted config rest := by
  unfold counted
  rw [List.countP_cons]
  cases reply.counts config <;> simp [Nat.add_comm]

end Count

section Cadence

/-- The cadence is due on the counting steps whose ordinal the period divides. -/
theorem Cadence.isDue_iff_dvd (cadence : Cadence) (count : Nat)
    (begun : cadence.cycle.toNat = count % cadence.threshold.toNat) :
    cadence.isDue ↔ cadence.threshold.toNat ∣ count + 1 := by
  have below := Nat.mod_lt count (Nat.zero_lt_of_lt (UInt32.lt_iff_toNat_lt.mp cadence.below))
  rw [isDueIff, begun, Nat.dvd_iff_mod_eq_zero, ← Nat.mod_add_mod]
  constructor
  · intro full
    rw [full, Nat.mod_self]
  · intro zero
    by_contra short
    rw [Nat.mod_eq_of_lt (by omega)] at zero
    omega

theorem Cadence.advance_begun (cadence : Cadence) (count : Nat)
    (begun : cadence.cycle.toNat = count % cadence.threshold.toNat) :
    cadence.advance.cycle.toNat = (count + 1) % cadence.threshold.toNat := by
  rw [advanceCycle, begun, Nat.mod_add_mod]

end Cadence

namespace Machine

section Beat

/-- The state whose timers a play may count down. -/
def ready (machine : Machine) (operation : Operation) : Machine :=
  if operation.isStep then machine.instructed else machine

/-- The reply of a play that does not count leaves the timers alone. -/
structure Rest (config : Config) (ready : Machine) (reply : Reply) : Prop where
  counts : reply.counts config = false
  beeps : reply.beeps = false
  cadence : reply.machine.cadence = ready.cadence
  delay : reply.machine.delay = ready.delay
  sound : reply.machine.sound = ready.sound

/-- The reply of a counting step advances the cadence, and with it the timers. -/
structure Beat (config : Config) (ready : Machine) (reply : Reply) : Prop where
  counts : reply.counts config = true
  beeps : reply.beeps = ready.beeps
  cadence : reply.machine.cadence = ready.cadence.advance
  delay : reply.machine.delay = ready.tickTimers.delay
  sound : reply.machine.sound = ready.tickTimers.sound

variable (machine : Machine)

theorem tickTimers_cadence : machine.tickTimers.cadence = machine.cadence.advance := by
  unfold tickTimers
  split <;> rfl

theorem tickTimers_delay :
    machine.tickTimers.delay =
      if machine.cadence.isDue then machine.delay.decrement else machine.delay := by
  unfold tickTimers
  split <;> rfl

theorem tickTimers_sound :
    machine.tickTimers.sound =
      if machine.cadence.isDue then machine.sound.decrement else machine.sound := by
  unfold tickTimers
  split <;> rfl

theorem settle_cases (signal : Signal) :
    (∃ step, machine.settle signal = (machine, step) ∧
      step.counts machine.config = false ∧ step.beep = false) ∨
    (∃ step, machine.settle signal = (machine.tickTimers, step) ∧
      step.counts machine.config = true ∧ step.beep = machine.beeps) := by
  cases signal with
  | none => exact .inr ⟨_, rfl, rfl, rfl⟩
  | draw => exact .inr ⟨_, rfl, rfl, rfl⟩
  | wait =>
      by_cases ticking : machine.config.tickWhileBlocked
      · exact .inr ⟨_, if_pos ticking, ticking, rfl⟩
      · exact .inl ⟨_, if_neg ticking, by simpa [Step.counts] using ticking, rfl⟩

/-- A tick is a step but for the mark of a changed display. -/
theorem apply_step (operation : Operation) (stepping : operation.isStep) :
    (machine.apply operation).answer = .ofStep machine.step.result ∧
      ∃ dirty, (machine.apply operation).machine = { machine.step.machine with dirty := dirty } := by
  cases operation with
  | step => exact ⟨rfl, machine.step.machine.dirty, rfl⟩
  | tick =>
      simp only [apply, applyTick, tick]
      rcases machine.step with ⟨stepped, fault | step⟩
      · exact ⟨rfl, stepped.dirty, rfl⟩
      · exact ⟨rfl, false, rfl⟩
  | load | loadFile | execute | handle | advance | setKeypad | setKey | toggleKey
  | setGenerator | takeDirty | reset => cases stepping

theorem instructed_keeps :
    machine.instructed.config = machine.config ∧
      machine.instructed.cadence = machine.cadence := by
  obtain ⟨_, _, -, shape, -⟩ | ⟨_, _, _, _, -, -, -, -, performed, shape, -⟩ := machine.step_cases
  · rw [shape]
    exact ⟨rfl, rfl⟩
  · rw [shape]
    exact ⟨performed.config, performed.cadence⟩

/-- A step that succeeds either rests or beats, and one that fails rests. -/
theorem step_beat (operation : Operation) (stepping : operation.isStep) :
    Rest machine.config machine.instructed (machine.apply operation) ∨
      Beat machine.config machine.instructed (machine.apply operation) := by
  obtain ⟨answer, dirty, after⟩ := machine.apply_step operation stepping
  obtain ⟨fault, word, -, shape, failed⟩ | ⟨word, _, _, _, -, -, -, -, -, -, done⟩ :=
    machine.step_cases
  · rw [failed] at answer after
    refine .inl ⟨?_, ?_, ?_, ?_, ?_⟩
    · simp only [Reply.counts, answer, Answer.ofStep]
    · simp only [Reply.beeps, answer, Answer.ofStep]
    all_goals rw [after, shape]
  · rw [done] at answer after
    obtain ⟨step, settled, counts, beeps⟩ | ⟨step, settled, counts, beeps⟩ :=
      machine.instructed.settle_cases (machine.executeSignal word)
    · rw [machine.instructed_keeps.1] at counts
      rw [settled] at answer after
      refine .inl ⟨?_, ?_, ?_, ?_, ?_⟩
      · exact (Reply.counts_stepped machine.config answer).trans counts
      · exact (Reply.beeps_stepped answer).trans beeps
      all_goals rw [after]
    · rw [machine.instructed_keeps.1] at counts
      rw [settled] at answer after
      refine .inr ⟨?_, ?_, ?_, ?_, ?_⟩
      · exact (Reply.counts_stepped machine.config answer).trans counts
      · exact (Reply.beeps_stepped answer).trans beeps
      · rw [after, ← tickTimers_cadence]
      all_goals rw [after]

/-- A play either rests or beats. -/
theorem apply_beat (operation : Operation) (play : operation.isPlay) :
    Rest machine.config (machine.ready operation) (machine.apply operation) ∨
      Beat machine.config (machine.ready operation) (machine.apply operation) := by
  cases operation with
  | step => exact machine.step_beat .step rfl
  | tick => exact machine.step_beat .tick rfl
  | setKeypad | setKey | toggleKey | setGenerator | takeDirty =>
      exact .inl ⟨rfl, rfl, rfl, rfl, rfl⟩
  | load | loadFile | execute | handle | advance | reset => cases play

end Beat

section Ready

variable (machine : Machine)

theorem settle_fetched (signal : Signal) :
    (machine.settle signal).1.fetched = machine.fetched := by
  have ticked : machine.tickTimers.fetched = machine.fetched := by
    unfold tickTimers
    split <;> rfl
  obtain ⟨step, settled, -⟩ | ⟨step, settled, -⟩ := machine.settle_cases signal
  · rw [settled]
  · rw [settled]
    exact ticked

/-- The reply of a successful step shows the word of its instruction. -/
theorem instructed_cases (operation : Operation) (stepping : operation.isStep) :
    (∃ word, machine.instructed = machine.keepFetched word) ∨
    (∃ word instruction handled move, machine.instructed = handled.advance move ∧
      Performed (machine.keepFetched word) instruction handled ∧
      Instruction.Encodes word.family word instruction ∧
      ∀ byte, (machine.apply operation).executed byte =
        (word.family == 0xF && word.byte == byte)) := by
  obtain ⟨answer, dirty, after⟩ := machine.apply_step operation stepping
  obtain ⟨_, word, -, shape, -⟩ |
      ⟨word, instruction, handled, move, -, -, -, decoded, performed, shape, done⟩ :=
    machine.step_cases
  · exact .inl ⟨word, shape⟩
  · have encodes := (Instruction.decode_eq_some_iff _ _ _).mp decoded
    have fetched : machine.step.machine.fetched = word := by
      rw [done, settle_fetched, shape]
      exact performed.fetched
    rw [done] at answer
    refine .inr ⟨word, instruction, handled, move, shape, performed, encodes, fun byte => ?_⟩
    simp only [Reply.executed, answer, Answer.ofStep, after, fetched]

/-- Only `FX15` sets the delay timer, and only `FX18` sets the sound timer. -/
theorem ready_timers (operation : Operation) :
    ((machine.apply operation).executed 0x15 = false →
      (machine.ready operation).delay = machine.delay) ∧
    ((machine.apply operation).executed 0x18 = false →
      (machine.ready operation).sound = machine.sound) := by
  unfold ready
  split
  · rename_i stepping
    obtain ⟨word, shape⟩ |
        ⟨word, instruction, handled, move, shape, performed, encodes, executed⟩ :=
      machine.instructed_cases operation stepping
    · rw [shape]
      exact ⟨fun _ => rfl, fun _ => rfl⟩
    · rw [shape]
      constructor
      · intro untouched
        refine performed.delay.trans ?_
        cases instruction with
        | setDelay x =>
            obtain ⟨family, -, byte⟩ := encodes
            rw [executed, family, byte] at untouched
            cases untouched
        | _ => rfl
      · intro untouched
        refine performed.sound.trans ?_
        cases instruction with
        | setSound x =>
            obtain ⟨family, -, byte⟩ := encodes
            rw [executed, family, byte] at untouched
            cases untouched
        | _ => rfl
  · exact ⟨fun _ => rfl, fun _ => rfl⟩

theorem ready_cadence (operation : Operation) :
    (machine.ready operation).cadence = machine.cadence := by
  unfold ready
  split
  · exact machine.instructed_keeps.2
  · rfl

end Ready

end Machine
end ChipEight
