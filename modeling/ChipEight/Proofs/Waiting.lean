/-
This file shows that waiting for a key leaves no trace.
-/
import ChipEight.Proofs.Cadence.Beat
import ChipEight.Proofs.Configured
import ChipEight.Proofs.Confinement
import ChipEight.Proofs.Loop

namespace ChipEight

/-- The pulse of a machine is all that can change while it waits. -/
structure Pulse where
  fetched : Word
  cadence : Cadence
  delay : Timer
  sound : Timer

namespace Machine

def setPulse (machine : Machine) (pulse : Pulse) : Machine :=
  { machine with
    fetched := pulse.fetched
    cadence := pulse.cadence
    delay := pulse.delay
    sound := pulse.sound }

section Counting

/-- So many counting steps move the cadence on and count the timers down once in a period. -/
structure Counted (before : Machine) (count : Nat) (after : Machine) : Prop where
  threshold : after.cadence.threshold = before.cadence.threshold
  cycle : after.cadence.cycle.toNat =
    (before.cadence.cycle.toNat + count) % before.cadence.threshold.toNat
  delay : after.delay.value.toNat = before.delay.value.toNat -
    (before.cadence.cycle.toNat + count) / before.cadence.threshold.toNat
  sound : after.sound.value.toNat = before.sound.value.toNat -
    (before.cadence.cycle.toNat + count) / before.cadence.threshold.toNat

theorem counted_zero (machine : Machine) : Counted machine 0 machine := by
  have below := UInt32.lt_iff_toNat_lt.mp machine.cadence.below
  refine ⟨rfl, (Nat.mod_eq_of_lt below).symm, ?_, ?_⟩
  all_goals rw [Nat.add_zero, Nat.div_eq_of_lt below, Nat.sub_zero]

/-- A timer that counts down on the multiples of the period has counted down once for each. -/
theorem decrement_counted {timer : Timer} {start count period : Nat} {due : Bool}
    (tick : due ↔ period ∣ count + 1) (value : timer.value.toNat = start - count / period) :
    (if due then timer.decrement else timer).value.toNat = start - (count + 1) / period := by
  cases due with
  | true =>
      rw [if_pos rfl, Timer.decrementValue, value, Nat.succ_div_of_dvd (tick.mp rfl), Nat.sub_sub]
  | false =>
      have apart : ¬ period ∣ count + 1 := fun divides => Bool.noConfusion (tick.mpr divides)
      rw [if_neg Bool.false_ne_true, value, Nat.succ_div_of_not_dvd apart]

theorem Counted.tick {before after : Machine} {count : Nat} (counted : Counted before count after) :
    Counted before (count + 1) after.tickTimers := by
  have begun : after.cadence.cycle.toNat =
      (before.cadence.cycle.toNat + count) % after.cadence.threshold.toNat := by
    rw [counted.cycle, counted.threshold]
  have due := after.cadence.isDue_iff_dvd _ begun
  rw [counted.threshold] at due
  refine ⟨?_, ?_, ?_, ?_⟩
  · rw [tickTimers_cadence, Cadence.advanceThreshold, counted.threshold]
  · rw [tickTimers_cadence, after.cadence.advance_begun _ begun, counted.threshold, Nat.add_assoc]
  · rw [tickTimers_delay, decrement_counted due counted.delay, Nat.add_assoc]
  · rw [tickTimers_sound, decrement_counted due counted.sound, Nat.add_assoc]

end Counting

section Awaiting

/-- The machine is loaded, and the word at its program counter waits for a key. -/
structure AwaitsKey (machine : Machine) : Prop where
  loaded : machine.loaded = true
  inside : machine.counter.toNat + 1 < 4096
  family : machine.nextWord.family = 0xF
  byte : machine.nextWord.byte = 0x0A

theorem settle_wait (machine : Machine) :
    machine.settle .wait =
      (if machine.config.tickWhileBlocked then machine.tickTimers else machine,
        .blocked (machine.config.tickWhileBlocked && machine.beeps)) := by
  cases ticking : machine.config.tickWhileBlocked <;> simp [settle, ticking]

variable {machine : Machine}

theorem AwaitsKey.step_eq (awaits : AwaitsKey machine) :
    machine.step = machine.executeFetched machine.nextWord := by
  rw [step, if_pos awaits.loaded, fetch_eq, if_pos awaits.inside]

theorem AwaitsKey.decode_eq (awaits : AwaitsKey machine) :
    Instruction.decode? machine.nextWord.family machine.nextWord =
      some (.awaitKey machine.nextWord.x) :=
  (Instruction.decode_eq_some_iff _ _ _).mpr ⟨awaits.family, rfl, awaits.byte⟩

/-- Without a pressed key, the machine keeps the word, and the settings decide about the timers. -/
theorem AwaitsKey.step_released (awaits : AwaitsKey machine)
    (released : machine.keypad.highest? = none) :
    machine.step =
      ⟨if machine.config.tickWhileBlocked then (machine.keepFetched machine.nextWord).tickTimers
        else machine.keepFetched machine.nextWord,
        .ok (.blocked (machine.config.tickWhileBlocked && machine.beeps))⟩ := by
  have same : (machine.keepFetched machine.nextWord).keypad.highest? = none := released
  rw [awaits.step_eq, executeFetched, execute, handle, awaits.decode_eq]
  simp only [perform, same]
  rw [settle_wait]
  rfl

/-- With a pressed key, the highest one is stored and the program goes on. -/
theorem AwaitsKey.step_pressed (awaits : AwaitsKey machine) {key : Nibble}
    (pressed : machine.keypad.highest? = some key) :
    let stored := (machine.keepFetched machine.nextWord).setRegister machine.nextWord.x
      (UInt8.ofNat key.val)
    machine.step =
      ⟨((stored.advance .next).settle .none).1, .ok ((stored.advance .next).settle .none).2⟩ := by
  have same : (machine.keepFetched machine.nextWord).keypad.highest? = some key := pressed
  rw [awaits.step_eq, executeFetched, execute, handle, awaits.decode_eq]
  simp only [perform, same]

/-- Only a word that waits for a key blocks a step. -/
theorem blocked_iff_awaitsKey (machine : Machine) :
    (∃ beep, machine.step.result = .ok (.blocked beep)) ↔
      AwaitsKey machine ∧ machine.keypad.highest? = none := by
  rw [step_blocked_iff, (machine.execute_outcome _).wait, ← Keypad.highestNone]
  constructor
  · rintro ⟨loaded, inside, family, byte, released⟩
    exact ⟨⟨loaded, inside, family, byte⟩, released⟩
  · rintro ⟨⟨loaded, inside, family, byte⟩, released⟩
    exact ⟨loaded, inside, family, byte, released⟩

end Awaiting

section Waited

/-- Steps without a key are all blocked. While the timers stand still they are silent and change
nothing, and otherwise they count; in both cases the fetched word does not matter. -/
structure Waited (machine : Machine) (count : Nat) : Prop where
  blocked (index : Nat) : index < count →
    machine.outcome index =
      .ok (.blocked (machine.config.tickWhileBlocked && (machine.stepped index).beeps))
  still : machine.config.tickWhileBlocked = false →
    SameBut keepFetched machine (machine.stepped count)
  pulse : SameBut setPulse machine (machine.stepped count)
  counted : machine.config.tickWhileBlocked = true →
    Counted machine count (machine.stepped count)

variable {machine : Machine} {count : Nat}

theorem Waited.awaitsKey (waited : Waited machine count) (awaits : AwaitsKey machine) :
    AwaitsKey (machine.stepped count) := by
  obtain ⟨pulse, same⟩ := waited.pulse
  rw [same]
  exact ⟨awaits.loaded, awaits.inside, awaits.family, awaits.byte⟩

theorem Waited.keypad (waited : Waited machine count) :
    (machine.stepped count).keypad = machine.keypad := by
  obtain ⟨pulse, same⟩ := waited.pulse
  rw [same]
  rfl

theorem Waited.config (waited : Waited machine count) :
    (machine.stepped count).config = machine.config := by
  obtain ⟨pulse, same⟩ := waited.pulse
  rw [same]
  rfl

theorem Waited.succ (waited : Waited machine count) (awaits : AwaitsKey machine)
    (released : machine.keypad.highest? = none) : Waited machine (count + 1) := by
  have next := (waited.awaitsKey awaits).step_released (waited.keypad ▸ released)
  rw [waited.config] at next
  refine ⟨?_, ?_, ?_, ?_⟩
  · intro index below
    obtain earlier | rfl := Nat.lt_succ_iff_lt_or_eq.mp below
    · exact waited.blocked index earlier
    · rw [outcome, next]
  -- The machine before the step differs in its pulse, so the step is read off that machine.
  · intro off
    obtain ⟨word, same⟩ := waited.still off
    rw [stepped_next, next, off, same]
    exact ⟨_, rfl⟩
  · obtain ⟨pulse, same⟩ := waited.pulse
    rw [stepped_next, next, same, tickTimers_eq]
    cases machine.config.tickWhileBlocked <;> exact ⟨⟨_, _, _, _⟩, rfl⟩
  · intro on
    obtain ⟨threshold, cycle, delay, sound⟩ := waited.counted on
    rw [stepped_next, next, on]
    exact Counted.tick ⟨threshold, cycle, delay, sound⟩

theorem waited_of_awaitsKey (awaits : AwaitsKey machine)
    (released : machine.keypad.highest? = none) (count : Nat) : Waited machine count := by
  induction count with
  | zero =>
      exact ⟨nofun, fun _ => ⟨machine.fetched, rfl⟩, ⟨⟨_, _, _, _⟩, rfl⟩,
        fun _ => machine.counted_zero⟩
  | succ count inductionHypothesis => exact inductionHypothesis.succ awaits released

end Waited

section Resumed

/-- The highest key is stored, and the program goes on with one counting step that changes nothing
else. -/
structure Resumed (waited ready : Machine) (attempt : Attempt Step) : Prop where
  executed : attempt.result = .ok (.executed ready.beeps)
  highest : ∃ key : Nibble, ready.keypad.keys.get key = true ∧
    (∀ other, ready.keypad.keys.get other = true → other ≤ key) ∧
    (attempt.machine.register waited.nextWord.x).toNat = key.val
  others (y : Nibble) : y ≠ waited.nextWord.x → attempt.machine.register y = waited.register y
  counter : attempt.machine.counter = waited.counter + 2
  counted : Counted waited 1 attempt.machine
  rest : ∃ pulse, attempt.machine =
    { waited with
      registers := attempt.machine.registers
      counter := attempt.machine.counter
      keypad := ready.keypad }.setPulse pulse

variable {machine : Machine}

theorem AwaitsKey.resumed (awaits : AwaitsKey machine) (keypad : Keypad)
    (pressed : ∃ key : Nibble, keypad.keys.get key = true) :
    Resumed machine (machine.setKeypad keypad) (machine.setKeypad keypad).step := by
  have waiting : AwaitsKey (machine.setKeypad keypad) :=
    ⟨awaits.loaded, awaits.inside, awaits.family, awaits.byte⟩
  cases found : keypad.highest? with
  | none =>
      obtain ⟨key, pressed⟩ := pressed
      rw [(keypad.highestNone).mp found key] at pressed
      cases pressed
  | some key =>
      obtain ⟨held, highest⟩ := (keypad.highestSome key).mp found
      let stored := ((machine.setKeypad keypad).keepFetched machine.nextWord).setRegister
        machine.nextWord.x (UInt8.ofNat key.val)
      have step : (machine.setKeypad keypad).step =
          ⟨(stored.advance .next).tickTimers, .ok (.executed (stored.advance .next).beeps)⟩ :=
        waiting.step_pressed found
      have reads (y : Nibble) : stored.register y =
          if machine.nextWord.x = y then UInt8.ofNat key.val else machine.register y :=
        registerSetRegister _ machine.nextWord.x y _
      have counted : Counted machine 1 (stored.advance .next).tickTimers := by
        obtain ⟨threshold, cycle, delay, sound⟩ := machine.counted_zero
        have start : Counted machine 0 (stored.advance .next) := ⟨threshold, cycle, delay, sound⟩
        exact start.tick
      rw [tickTimers_eq] at step counted
      rw [step]
      refine ⟨rfl, ⟨key, held, highest, ?_⟩, ?_, rfl, counted, ⟨_, _, _, _⟩, rfl⟩
      · have small : key.val < UInt8.size := Nat.lt_trans key.isLt (by decide)
        exact (congrArg UInt8.toNat ((reads _).trans (if_pos rfl))).trans
          (UInt8.toNat_ofNat_of_lt' small)
      · intro y apart
        exact (reads y).trans (if_neg apart.symm)

end Resumed

section Fetched

/-- A step that fetches a word forgets the one before. -/
theorem step_forgets {left right : Machine} (same : SameBut keepFetched left right)
    (loaded : left.loaded = true) (inside : left.counter.toNat + 1 < 4096) :
    right.step = left.step := by
  obtain ⟨word, rfl⟩ := same
  have fetched := left.fetch_eq
  rw [if_pos inside] at fetched
  have again : (left.keepFetched word).fetch = .ok left.nextWord := fetched
  rw [step, step, if_pos loaded, fetched, again]
  exact if_pos loaded

end Fetched

section Awake

def blocks (machine : Machine) : Bool :=
  match machine.step.result with
  | .ok (.blocked _) => true
  | _ => false

/-- The operation only waits if it is blocked and takes no changed display. -/
def waits (machine : Machine) : Operation → Bool
  | .step => machine.blocks
  | .tick => machine.blocks && !machine.dirty
  | _ => false

/-- The operations of a run but for those that only wait. -/
def awake (machine : Machine) : List Operation → List Operation
  | [] => []
  | operation :: rest =>
      (if machine.waits operation then [] else [operation]) ++
        (machine.apply operation).machine.awake rest

theorem step_of_blocks {machine : Machine} (still : machine.config.tickWhileBlocked = false)
    (blocks : machine.blocks) :
    machine.step = ⟨machine.keepFetched machine.nextWord, .ok (.blocked false)⟩ := by
  have blocked : ∃ beep, machine.step.result = .ok (.blocked beep) := by
    unfold Machine.blocks at blocks
    split at blocks
    · exact ⟨_, ‹_›⟩
    · cases blocks
  obtain ⟨awaits, released⟩ := (blocked_iff_awaitsKey machine).mp blocked
  rw [awaits.step_released released, still]
  rfl

/-- While the timers stand still, an operation that waits only keeps a word. -/
theorem apply_waits {machine : Machine} {operation : Operation}
    (still : machine.config.tickWhileBlocked = false) (waits : machine.waits operation) :
    SameBut keepFetched machine (machine.apply operation).machine := by
  cases operation with
  | step => exact ⟨_, congrArg Attempt.machine (step_of_blocks still waits)⟩
  | tick =>
      obtain ⟨blocks, clean⟩ : machine.blocks = true ∧ machine.dirty = false := by
        simpa [Machine.waits] using waits
      refine ⟨machine.nextWord, ?_⟩
      simp only [apply, applyTick, tick, step_of_blocks still blocks]
      exact (congrArg (machine.keepFetched machine.nextWord).setDirty clean.symm :)
  | _ => cases waits

/-- A run ends as if it had never waited. -/
theorem after_awake {left right : Machine} (still : left.config.tickWhileBlocked = false)
    (same : SameBut keepFetched left right) (operations : List Operation) :
    SameBut keepFetched (left.after operations) (right.after (left.awake operations)) := by
  -- The right machine stands still while the left one waits, and otherwise they go in step.
  induction operations generalizing left right with
  | nil => exact same
  | cons operation rest inductionHypothesis =>
      have next : (left.apply operation).machine.config.tickWhileBlocked = false := by
        rw [(left.apply_sameSettings operation).config, still]
      rw [after_cons, awake]
      by_cases waits : left.waits operation
      · obtain ⟨word, rfl⟩ := same
        obtain ⟨other, waited⟩ := apply_waits still waits
        rw [if_pos waits, List.nil_append]
        exact inductionHypothesis next ⟨word, by rw [waited]; rfl⟩
      · have reply := apply_lockstep fetched_lockstep same operation fun _ _ => trivial
        rw [if_neg waits, List.singleton_append, after_cons]
        exact inductionHypothesis next reply.machine

theorem awake_append (machine : Machine) (first second : List Operation) :
    machine.awake (first ++ second) =
      machine.awake first ++ (machine.after first).awake second := by
  induction first generalizing machine with
  | nil => rfl
  | cons operation rest inductionHypothesis =>
      rw [List.cons_append, awake, inductionHypothesis, awake, after_cons, List.append_assoc]

theorem waits_congr {left right : Machine} (same : SameBut keepFetched left right)
    (operation : Operation) : right.waits operation = left.waits operation := by
  have step := (step_lockstep fetched_lockstep.toStepLockstep same fun _ _ => trivial).result
  have dirty := fetched_lockstep.dirty same
  cases operation <;> simp only [waits, blocks, step, dirty]

theorem awake_congr {left right : Machine} (same : SameBut keepFetched left right)
    (operations : List Operation) : right.awake operations = left.awake operations := by
  induction operations generalizing left right with
  | nil => rfl
  | cons operation rest inductionHypothesis =>
      have reply := apply_lockstep fetched_lockstep same operation fun _ _ => trivial
      rw [awake, awake, waits_congr same, inductionHypothesis reply.machine]

/-- A run may wait any number of steps wherever it can wait. -/
theorem awake_replicate {machine : Machine} (still : machine.config.tickWhileBlocked = false)
    (awaits : AwaitsKey machine) (released : machine.keypad.highest? = none) (count : Nat)
    (operations : List Operation) :
    machine.awake (List.replicate count .step ++ operations) = machine.awake operations := by
  have waits : machine.waits .step = true := by
    simp only [Machine.waits, blocks, awaits.step_released released]
  induction count with
  | zero => rfl
  | succ count inductionHypothesis =>
      have same := awake_congr (apply_waits still waits) (List.replicate count .step ++ operations)
      rw [List.replicate_succ, List.cons_append, awake, if_pos waits, List.nil_append, same,
        inductionHypothesis]

/-- Two runs that differ only in how long they wait end alike. -/
theorem after_of_awake {machine : Machine} (still : machine.config.tickWhileBlocked = false)
    {first second : List Operation} (alike : machine.awake first = machine.awake second) :
    SameBut keepFetched (machine.after first) (machine.after second) := by
  obtain ⟨word, left⟩ := after_awake still ⟨machine.fetched, rfl⟩ first
  obtain ⟨_, right⟩ := after_awake still ⟨machine.fetched, rfl⟩ second
  rw [alike, right] at left
  exact ⟨(machine.after second).fetched, (congrArg (keepFetched · _) left :)⟩

end Awake

section Traceless

/-- Blocked steps can be added wherever a key is awaited. Runs that differ only in them end in one
state but for the fetched word, and the next word that is fetched makes them equal. -/
structure Traceless (machine : Machine) : Prop where
  added (first rest : List Operation) (count : Nat) :
    AwaitsKey (machine.after first) →
    (∀ key : Nibble, (machine.after first).keypad.keys.get key = false) →
    machine.awake (first ++ (List.replicate count .step ++ rest)) = machine.awake (first ++ rest)
  same (first second : List Operation) : machine.awake first = machine.awake second →
    SameBut keepFetched (machine.after first) (machine.after second)
  forgotten (first second : List Operation) : machine.awake first = machine.awake second →
    (machine.after first).loaded = true → (machine.after first).counter.toNat + 1 < 4096 →
    (machine.after second).step = (machine.after first).step

theorem traceless_of_still {machine : Machine}
    (still : machine.config.tickWhileBlocked = false) : Traceless machine where
  added first rest count awaits released := by
    have settings := machine.after_sameSettings first
    have waiting := awake_replicate (settings.config ▸ still) awaits
      ((Keypad.highestNone _).mpr released) count rest
    rw [awake_append, waiting, ← awake_append]
  same _ _ alike := after_of_awake still alike
  forgotten _ _ alike := step_forgets (after_of_awake still alike)

/-- While no key is pressed, the steps are blocked and change nothing, or the timers as the settings
say. The highest key ends the wait. If the timers stand still, no run shows how long it waited. -/
theorem waits_traceless (machine : Machine) :
    (AwaitsKey machine → (∀ key : Nibble, machine.keypad.keys.get key = false) → ∀ count,
      Waited machine count ∧
      ∀ keys, (∀ operation ∈ keys, operation.isKey) →
        (∃ key : Nibble, ((machine.stepped count).after keys).keypad.keys.get key = true) →
        Resumed (machine.stepped count) ((machine.stepped count).after keys)
          ((machine.stepped count).after keys).step) ∧
    (machine.config.tickWhileBlocked = false → Traceless machine) := by
  refine ⟨?_, traceless_of_still⟩
  intro awaits released count
  have waited := waited_of_awaitsKey awaits (machine.keypad.highestNone.mpr released) count
  refine ⟨waited, fun keys pressing pressed => ?_⟩
  obtain ⟨keypad, ready⟩ := after_keys (machine.stepped count) keys pressing
  rw [ready] at pressed ⊢
  exact (waited.awaitsKey awaits).resumed keypad pressed

/-- One run waits twice for its key, and the other one not at all. -/
theorem waits_traceless_twice :
    let machine := (initial {} (.arithmetic 0 1)).load ⟨"", [0xF3, 0x0A], by decide, by decide⟩
    let keys := [Operation.setKey 0x4 true, .toggleKey 0xB]
    let patient := machine.after ([.step, .step] ++ keys ++ [.step])
    let hasty := machine.after (keys ++ [.step])
    (Waited machine 2 ∧
      Resumed (machine.stepped 2) ((machine.stepped 2).after keys)
        ((machine.stepped 2).after keys).step) ∧
    SameBut keepFetched patient hasty ∧ hasty.step = patient.step := by
  intro machine keys patient hasty
  have word : machine.nextWord = 0xF30A := by decide +kernel
  have awaits : AwaitsKey machine :=
    ⟨rfl, show (0x200 : Nat) + 1 < 4096 by decide, by rw [word]; rfl, by rw [word]; rfl⟩
  have released : ∀ key : Nibble, machine.keypad.keys.get key = false := by decide +kernel
  obtain ⟨waiting, runs⟩ := waits_traceless machine
  obtain ⟨waited, resumed⟩ := waiting awaits released 2
  have traceless := runs rfl
  have alike := traceless.added [] (keys ++ [.step]) 2 awaits released
  exact ⟨⟨waited, resumed keys (by decide) ⟨0xB, by decide +kernel⟩⟩,
    traceless.same _ _ alike,
    traceless.forgotten _ _ alike (by decide +kernel) (by decide +kernel)⟩

end Traceless

end Machine
end ChipEight
