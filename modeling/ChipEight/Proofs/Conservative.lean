/-
This file shows how little the settings of the shifts and of the waits change.
-/
import ChipEight.Proofs.Outcome
import ChipEight.Proofs.Settings

namespace ChipEight

def Config.setShifting (config : Config) (on : Bool) : Config :=
  { config with shiftSetsFlag := on }

def Config.setTicking (config : Config) (on : Bool) : Config :=
  { config with tickWhileBlocked := on }

def Instruction.readsDelay : Instruction → Bool
  | .readDelay _ => true
  | _ => false

/-- The timing of a machine can reach its program only through the delay timer. -/
structure Timing where
  tickWhileBlocked : Bool
  cadence : Cadence
  delay : Timer
  sound : Timer

def Step.muted : Step → Step
  | .executed _ => .executed false
  | .blocked _ => .blocked false

def Answer.muted : Answer → Answer
  | .stepped step => .stepped step.muted
  | answer => answer

/-- The reply to somebody who hears no beep. -/
def Reply.muted (reply : Reply) : Reply where
  machine := reply.machine
  answer := reply.answer.muted
  events := reply.events.filter (· != .beep)
  forwarded := { reply.forwarded with beep := false }

theorem Reply.Related.muted {related : Machine → Machine → Prop} {left right : Reply}
    (alike : Reply.Related related left right) :
    Reply.Related related left.muted right.muted := by
  obtain ⟨answer, events, forwarded, machine⟩ := alike
  refine ⟨?_, ?_, ?_, machine⟩
  · simp only [Reply.muted, answer]
  · simp only [Reply.muted, events]
  · simp only [Reply.muted, forwarded]

namespace Machine

section Shift

variable (machine : Machine) (config : Config)

theorem setRegister_setRegister (x : Nibble) (first second : UInt8) :
    (machine.setRegister x first).setRegister x second = machine.setRegister x second := by
  simp only [setRegister, Vector.set_set]

theorem setRegister_register (x : Nibble) :
    machine.setRegister x (machine.register x) = machine := by
  have same : machine.registers.set x.val (machine.register x) x.below = machine.registers :=
    Vector.set_getElem_self _
  simp only [setRegister, same]

/-- Other settings and another byte in the flag register. -/
def withFlag (flag : UInt8) : Machine :=
  (machine.setRegister flagRegister flag).withConfig config

/-- The result is written first, so the settings do not reach it even in the flag register. -/
theorem combine_withFlag (operator : Operator) (x y : Nibble) :
    ∃ flag, (machine.withConfig config).combine operator x y =
      (machine.combine operator x y).withFlag config flag := by
  simp only [combine]
  rw [show (machine.withConfig config).register = machine.register from rfl,
    show (machine.withConfig config).config = config from rfl]
  generalize operator.result (machine.register x) (machine.register y) = value
  cases operator.flag? config.shiftSetsFlag (machine.register x) (machine.register y) with
  | some flag =>
      refine ⟨flag, ?_⟩
      cases operator.flag? machine.config.shiftSetsFlag (machine.register x) (machine.register y) with
      | some other => rw [withFlag, setRegister_setRegister]; rfl
      | none => rfl
  | none =>
      -- The byte that the result leaves in the flag register has to come back.
      refine ⟨(machine.setRegister x value).register flagRegister, ?_⟩
      cases operator.flag? machine.config.shiftSetsFlag (machine.register x) (machine.register y) with
      | some other => rw [withFlag, setRegister_setRegister, setRegister_register]; rfl
      | none => rw [withFlag, setRegister_register]; rfl

/-- An operator is executed in one counting step. -/
theorem step_combine {operator : Operator} {x y : Nibble}
    (next : machine.instruction? = some (.combine operator x y)) :
    machine.step =
      ⟨(((machine.keepFetched machine.nextWord).combine operator x y).advance .next).tickTimers,
        .ok (.executed ((machine.keepFetched machine.nextWord).combine operator x y).beeps)⟩ := by
  obtain ⟨loaded, word, fetched, decoded⟩ := (machine.instruction?_eq_some_iff _).mp next
  obtain ⟨-, rfl⟩ := (machine.fetch_ok_iff word).mp fetched
  simp only [step, loaded, if_true, fetched, executeFetched, execute, handle, decoded, perform]
  rfl

theorem step_withFlag {operator : Operator} {x y : Nibble}
    (next : machine.instruction? = some (.combine operator x y)) :
    ∃ flag, (machine.withConfig config).step =
      ⟨machine.step.machine.withFlag config flag, machine.step.result⟩ := by
  obtain ⟨flag, combined⟩ :=
    (machine.keepFetched machine.nextWord).combine_withFlag config operator x y
  have same : (machine.withConfig config).keepFetched (machine.withConfig config).nextWord =
    (machine.keepFetched machine.nextWord).withConfig config := rfl
  refine ⟨flag, ?_⟩
  rw [step_combine _ next, step_combine (machine.withConfig config) next, same, combined,
    tickTimers_eq, tickTimers_eq]
  rfl

/-- The settings reach the flag register through the operator, and nothing else. -/
theorem apply_withFlag (operation : Operation) {operator : Operator} {x y : Nibble}
    (next : machine.instructionOf? operation = some (.combine operator x y)) :
    ∃ flag, (machine.withConfig config).apply operation =
      { machine.apply operation with
        machine := (machine.apply operation).machine.withFlag config flag } := by
  cases operation with
  | step =>
      obtain ⟨flag, stepped⟩ := machine.step_withFlag config next
      refine ⟨flag, ?_⟩
      simp only [apply, applyStep, stepped]
      rfl
  | tick =>
      obtain ⟨flag, stepped⟩ := machine.step_withFlag config next
      refine ⟨flag, ?_⟩
      simp only [apply, applyTick, tick, stepped]
      rcases machine.step with ⟨after, fault | step⟩ <;> rfl
  | execute word =>
      obtain ⟨flag, combined⟩ := machine.combine_withFlag config operator x y
      have decoded : Instruction.decode? word.family word = some (.combine operator x y) := next
      refine ⟨flag, ?_⟩
      simp only [apply, applyExecute, execute, handle, decoded, perform, combined]
      rfl
  | handle family word =>
      obtain ⟨flag, combined⟩ := machine.combine_withFlag config operator x y
      have decoded : Instruction.decode? family word = some (.combine operator x y) := next
      refine ⟨flag, ?_⟩
      simp only [apply, applyHandle, handle, decoded, perform, combined]
      rfl
  | load | loadFile | advance | setKeypad | setKey | toggleKey | setGenerator | takeDirty | reset =>
      cases next

end Shift

section Timing

/-- The timers and their cadence, and whether they go on while the machine waits. -/
def setTiming (machine : Machine) (timing : Timing) : Machine :=
  { machine with
    config := machine.config.setTicking timing.tickWhileBlocked
    cadence := timing.cadence
    delay := timing.delay
    sound := timing.sound }

theorem setTicking_timing (machine : Machine) (on : Bool) :
    SameBut setTiming machine (machine.withConfig (machine.config.setTicking on)) :=
  ⟨⟨on, machine.cadence, machine.delay, machine.sound⟩, rfl⟩

variable {left right : Machine}

/-- An instruction can set the timers, but only one reads them. -/
theorem perform_setTiming (machine : Machine) (timing : Timing) (instruction : Instruction)
    (blind : instruction.readsDelay = false) :
    Attempt.Related (SameBut setTiming) (machine.perform instruction)
      ((machine.setTiming timing).perform instruction) := by
  cases instruction with
  | readDelay => cases blind
  | setDelay x => exact ⟨rfl, { timing with delay := ⟨machine.register x⟩ }, rfl⟩
  | setSound x => exact ⟨rfl, { timing with sound := ⟨machine.register x⟩ }, rfl⟩
  | leave =>
      simp only [perform, setTiming]
      cases machine.stack.pop <;> exact ⟨rfl, timing, rfl⟩
  | call target =>
      simp only [perform, setTiming]
      cases machine.stack.push machine.counter <;> exact ⟨rfl, timing, rfl⟩
  | awaitKey x =>
      simp only [perform, setTiming]
      cases machine.keypad.highest? <;> exact ⟨rfl, timing, rfl⟩
  | selectGlyph x =>
      rw [selectGlyph_eq, selectGlyph_eq]
      exact ⟨rfl, timing, rfl⟩
  | combine operator x y =>
      simp only [perform, combine, setTiming, Config.setTicking, register]
      split <;> exact ⟨rfl, timing, rfl⟩
  | _ => exact ⟨rfl, timing, rfl⟩

theorem timing_lockstep :
    ExecuteLockstep (fun instruction => instruction.readsDelay = false) (SameBut setTiming) where
  loaded := by rintro _ _ ⟨_, rfl⟩; rfl
  fetch := by rintro _ _ ⟨_, rfl⟩; rfl
  keepFetched := by rintro _ _ _ ⟨timing, rfl⟩; exact ⟨timing, rfl⟩
  advance := by rintro _ _ _ ⟨timing, rfl⟩; exact ⟨timing, rfl⟩
  perform := by
    rintro machine _ instruction blind ⟨timing, rfl⟩
    exact machine.perform_setTiming timing instruction blind

/-- The timers follow the signal in their own way. -/
theorem settle_setTiming (machine : Machine) (signal : Signal) :
    SameBut setTiming machine (machine.settle signal).1 := by
  obtain ⟨step, settled, -⟩ | ⟨step, settled, -⟩ := machine.settle_cases signal
  · rw [settled]
    exact ⟨⟨machine.config.tickWhileBlocked, machine.cadence, machine.delay, machine.sound⟩, rfl⟩
  · rw [settled, tickTimers_eq]
    exact ⟨⟨machine.config.tickWhileBlocked, _, _, _⟩, rfl⟩

theorem settle_muted (machine other : Machine) (signal : Signal) :
    (other.settle signal).2.muted = (machine.settle signal).2.muted := by
  have silent (machine : Machine) : (machine.settle signal).2.muted =
      if signal = .wait then .blocked false else .executed false := by
    cases signal with
    | none | draw => rfl
    | wait =>
        simp only [settle]
        split <;> rfl
  rw [silent, silent]

theorem settle_timing (same : SameBut setTiming left right) (signal : Signal) :
    SameBut setTiming (left.settle signal).1 (right.settle signal).1 := by
  obtain ⟨timing, rfl⟩ := same
  obtain ⟨first, settled⟩ := left.settle_setTiming signal
  obtain ⟨second, settled'⟩ := (left.setTiming timing).settle_setTiming signal
  rw [settled, settled']
  exact ⟨second, rfl⟩

theorem direct_setTiming (machine : Machine) (timing : Timing) (operation : Operation)
    (direct : operation.isDirect) :
    Reply.Related (SameBut setTiming) (machine.apply operation)
      ((machine.setTiming timing).apply operation) := by
  let erased : Timing := { timing with cadence := timing.cadence.restart, delay := {}, sound := {} }
  cases operation with
  | load name data => exact applyLoad_related name data ⟨timing, rfl⟩ fun _ => ⟨erased, rfl⟩
  | loadFile files path =>
      exact applyLoadFile_related files path ⟨timing, rfl⟩ fun _ => ⟨erased, rfl⟩
  | reset => exact ⟨rfl, rfl, rfl, erased, rfl⟩
  | advance | setKeypad | setKey | toggleKey | setGenerator | takeDirty =>
      exact ⟨rfl, rfl, rfl, timing, rfl⟩
  | step | tick | execute | handle => cases direct

/-- Two outcomes that sound alike without beeps are also reported alike. -/
theorem stepEvents_muted (same : SameBut setTiming left right) {first second : Except Fault Step}
    (alike : (Answer.ofStep second).muted = (Answer.ofStep first).muted) :
    (right.stepEvents second).filter (· != .beep) =
      (left.stepEvents first).filter (· != .beep) := by
  obtain ⟨timing, rfl⟩ := same
  have outcomes (word : Word) :
      ((left.setTiming timing).outcomeEvents word second).filter (· != .beep) =
        (left.outcomeEvents word first).filter (· != .beep) := by
    have quiet (machine : Machine) (step : Step) :
        (machine.outcomeEvents word (.ok step)).filter (· != .beep) = [] := by
      simp only [outcomeEvents]
      split <;> rfl
    rcases first with fault | step <;> rcases second with other | other
    · cases alike
      rfl
    · cases alike
    · cases alike
    · rw [quiet, quiet]
  have loads : (left.setTiming timing).loaded = left.loaded := rfl
  have fetches : (left.setTiming timing).fetch = left.fetch := rfl
  unfold stepEvents
  rw [loads, fetches]
  by_cases loaded : left.loaded
  · cases left.fetch with
    | error fault => rfl
    | ok word =>
        simp only [loaded, if_true, List.filter_cons, List.filter_append, outcomes]
        rfl
  · simp only [loaded]
    rfl

theorem step_muted (same : SameBut setTiming left right)
    (blind : ∀ instruction ∈ left.instruction?, instruction.readsDelay = false) :
    (Answer.ofStep right.step.result).muted = (Answer.ofStep left.step.result).muted ∧
      SameBut setTiming left.step.machine right.step.machine := by
  obtain ⟨first, second, fault, failed, failed', stepped⟩ |
      ⟨first, second, signal, done, done', executed⟩ :=
    step_cases_lockstep timing_lockstep same blind
  · rw [failed, failed']
    exact ⟨rfl, stepped⟩
  · rw [done, done']
    exact ⟨congrArg Answer.stepped (settle_muted first second signal),
      settle_timing executed signal⟩

/-- A frame is forwarded to both or to none. -/
theorem tick_muted (same : SameBut setTiming left right)
    (blind : ∀ instruction ∈ left.instruction?, instruction.readsDelay = false) :
    (Answer.ofStep right.tick.result).muted = (Answer.ofStep left.tick.result).muted ∧
      right.tick.forwarded.frame? = left.tick.forwarded.frame? ∧
      SameBut setTiming left.tick.machine right.tick.machine := by
  unfold tick
  obtain ⟨first, second, fault, failed, failed', stepped⟩ |
      ⟨first, second, signal, done, done', executed⟩ :=
    step_cases_lockstep timing_lockstep same blind
  · rw [failed, failed']
    exact ⟨rfl, rfl, stepped⟩
  · obtain ⟨timing, settled⟩ := settle_timing executed signal
    rw [done, done', settled]
    exact ⟨congrArg Answer.stepped (settle_muted first second signal), rfl, timing, rfl⟩

theorem apply_muted (same : SameBut setTiming left right) (operation : Operation)
    (blind : ∀ instruction ∈ left.instructionOf? operation, instruction.readsDelay = false) :
    Reply.Related (SameBut setTiming) (left.apply operation).muted
      (right.apply operation).muted := by
  cases operation with
  | step =>
      obtain ⟨answer, stepped⟩ := step_muted same blind
      exact ⟨answer, stepEvents_muted same answer, rfl, stepped⟩
  | tick =>
      obtain ⟨answer, frame, ticked⟩ := tick_muted same blind
      refine ⟨answer, stepEvents_muted same answer, ?_, ticked⟩
      exact congrArg (Forwarded.mk · false) frame
  | execute word =>
      obtain ⟨result, machine⟩ := execute_lockstep timing_lockstep same word blind
      obtain ⟨timing, rfl⟩ := same
      exact Reply.Related.muted ⟨congrArg Answer.ofSignal result, rfl, rfl, machine⟩
  | handle family word =>
      obtain ⟨result, machine⟩ := handle_lockstep timing_lockstep same family word blind
      obtain ⟨timing, rfl⟩ := same
      exact Reply.Related.muted ⟨congrArg Answer.ofEffect result, rfl, rfl, machine⟩
  | load | loadFile | advance | setKeypad | setKey | toggleKey | setGenerator | takeDirty | reset =>
      obtain ⟨timing, rfl⟩ := same
      exact (left.direct_setTiming timing _ rfl).muted

theorem replies_muted (same : SameBut setTiming left right) (operations : List Operation)
    (blind : ∀ instruction ∈ left.instructions operations, instruction.readsDelay = false) :
    List.Forall₂ (fun left right => Reply.Related (SameBut setTiming) left.muted right.muted)
      (left.replies operations) (right.replies operations) := by
  induction operations generalizing left right with
  | nil => exact .nil
  | cons operation rest inductionHypothesis =>
      rw [instructions, List.forall_mem_append] at blind
      have reply := apply_muted same operation fun instruction executed =>
        blind.1 instruction (Option.mem_toList.mpr executed)
      exact .cons reply (inductionHypothesis reply.machine blind.2)

end Timing

section Conservative

/-- The setting of the shifts reaches only the flag register, and only through a shift. The setting
of the waits reaches nothing before a step waits; after that it reaches the timers, their cadence
and the beeps, and nothing else until the delay timer is read. -/
structure Conservative (machine : Machine) (on : Bool) : Prop where
  shiftless (operations : List Operation) :
    (∀ instruction ∈ machine.instructions operations, instruction.shifts = false) →
    (machine.withConfig (machine.config.setShifting on)).replies operations =
      (machine.replies operations).map (Reply.withConfig (machine.config.setShifting on))
  shift (operation : Operation) :
    (∃ instruction ∈ machine.instructionOf? operation, instruction.shifts) → ∃ flag,
      (machine.withConfig (machine.config.setShifting on)).apply operation =
        { machine.apply operation with
          machine :=
            (machine.apply operation).machine.withFlag (machine.config.setShifting on) flag }
  waitless (operations : List Operation) :
    (∀ reply ∈ machine.replies operations, reply.answer.isBlocked = false) →
    (machine.withConfig (machine.config.setTicking on)).replies operations =
      (machine.replies operations).map (Reply.withConfig (machine.config.setTicking on))
  muted (first second : List Operation) :
    (∀ reply ∈ machine.replies first, reply.answer.isBlocked = false) →
    (∀ instruction ∈ (machine.after first).instructions second, instruction.readsDelay = false) →
    List.Forall₂ (fun left right => Reply.Related (SameBut setTiming) left.muted right.muted)
      ((machine.after first).replies second)
      (((machine.withConfig (machine.config.setTicking on)).after first).replies second)

/-- Neither setting reaches further, whatever the machine and the operations. -/
theorem settings_conservative (machine : Machine) (on : Bool) : Conservative machine on := by
  have awake (operations : List Operation)
      (waitless : ∀ reply ∈ machine.replies operations, reply.answer.isBlocked = false) :=
    machine.run_withConfig (machine.config.setTicking on) operations
      (fun _ _ _ => rfl)
      (fun reply inside blocked => by rw [waitless reply inside] at blocked; cases blocked)
  constructor
  case shiftless =>
    intro operations shiftless
    have run := machine.run_withConfig (machine.config.setShifting on) operations
      (fun instruction inside shifts => by rw [shiftless instruction inside] at shifts; cases shifts)
      (fun _ _ _ => rfl)
    exact run.1
  case shift =>
    rintro operation ⟨instruction, next, shifts⟩
    cases instruction with
    | combine operator x y => exact machine.apply_withFlag _ operation next
    | _ => cases shifts
  case waitless => exact fun operations waitless => (awake operations waitless).1
  case muted =>
    intro first second waitless blind
    have same := (machine.after first).setTicking_timing on
    rw [(machine.after_sameSettings first).config] at same
    rw [(awake first waitless).2]
    exact replies_muted same second blind

/-- The program shifts its flag register, and then it waits for a key and shows it. -/
theorem settings_conservative_flag :
    let machine := (initial {} (.arithmetic 0 1)).load
      ⟨"", [0x6F, 0x03, 0x8F, 0xF6, 0xF1, 0x0A, 0xF1, 0x29, 0xD1, 0x15], by decide, by decide⟩
    let shifting := machine.config.setShifting true
    let ticking := machine.config.setTicking true
    let first := [Operation.step, .step]
    let second := [Operation.step, .setKey 3 true, .tick, .step, .tick]
    (machine.withConfig shifting).replies [.step] =
        (machine.replies [.step]).map (Reply.withConfig shifting) ∧
      (∃ flag, ((machine.after [.step]).withConfig shifting).apply .step =
        { (machine.after [.step]).apply .step with
          machine := ((machine.after [.step]).apply .step).machine.withFlag shifting flag }) ∧
      (machine.withConfig ticking).replies first =
        (machine.replies first).map (Reply.withConfig ticking) ∧
      List.Forall₂ (fun left right => Reply.Related (SameBut setTiming) left.muted right.muted)
        ((machine.after first).replies second)
        (((machine.withConfig ticking).after first).replies second) := by
  intro machine shifting ticking first second
  have conservative := settings_conservative machine true
  have later := settings_conservative (machine.after [.step]) true
  have settings : (machine.after [.step]).config.setShifting true = shifting :=
    congrArg (Config.setShifting · true) (machine.after_sameSettings _).config
  have waitless : ∀ reply ∈ machine.replies first, reply.answer.isBlocked = false := by
    decide +kernel
  refine ⟨conservative.shiftless [.step] (by decide +kernel), ?_,
    conservative.waitless first waitless, conservative.muted first second waitless (by decide +kernel)⟩
  rw [← settings]
  exact later.shift .step ⟨.combine .shiftRight 15 15, by decide +kernel, rfl⟩

end Conservative

end Machine
end ChipEight
