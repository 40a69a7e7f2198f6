/-
This file tells which records a step leaves in the log, and that the log of a history lists all fetched
words.
-/
import ChipEight.Proofs.Bare.Logged
import ChipEight.Proofs.Gate
import ChipEight.Proofs.Hexadecimal
import ChipEight.Proofs.Outcome
import ChipEight.Proofs.Settings

namespace ChipEight

namespace Event

section Records

/-- Only a beep leaves the record of a beep. -/
theorem record_eq_beep_iff (event : Event) : event.record = beep.record ↔ event = .beep := by
  cases event with
  | beep => simp
  | _ => simp [record, level, target]

theorem message_ne_awaitingKey (digits : String) :
    "opcode 0x" ++ digits ≠ "waiting for a key press" ∧
      "pc 0x" ++ digits ≠ "waiting for a key press" := by
  refine ⟨fun same => ?_, fun same => ?_⟩ <;>
    simpa using congrArg (fun text => text.toList.head?) same

/-- The other records of the instructions begin with another letter. -/
theorem record_eq_awaitingKey_iff (event : Event) :
    event.record = awaitingKey.record ↔ event = .awaitingKey := by
  refine ⟨fun same => ?_, fun same => by rw [same]⟩
  have target : event.target = awaitingKey.target := congrArg Record.target same
  have message : event.message = awaitingKey.message := congrArg Record.message same
  cases event with
  | awaitingKey => rfl
  | system word => exact absurd message (message_ne_awaitingKey _).1
  | returning address => exact absurd message (message_ne_awaitingKey _).2
  | _ => simp [Event.target] at target

theorem count_record {event : Event}
    (unique : ∀ other : Event, other.record = event.record ↔ other = event) (events : List Event) :
    (events.map record).count event.record = events.count event := by
  rw [List.count, List.countP_map, List.count]
  refine List.countP_congr fun other _ => ?_
  simp [unique]

/-- Both words can be read back from their place in the text. -/
theorem place_injective : Function.Injective fun fetch : Word × Word => place fetch.1 fetch.2 := by
  rintro ⟨counter, word⟩ ⟨other, following⟩ same
  have width (word : Word) : (Hex.upper 4 word.toNat).toList.length = 4 :=
    Hex.length_upper (by decide) word.toNat_lt
  have texts := congrArg String.toList same
  simp only [place, String.toList_append, List.append_assoc] at texts
  obtain ⟨first, rest⟩ :=
    List.append_inj (List.append_cancel_left texts) ((width counter).trans (width other).symm)
  have second := List.append_cancel_left rest
  have counters := UInt16.toNat_inj.mp (Hex.upper_injective 4 (String.toList_inj.mp first))
  have words := UInt16.toNat_inj.mp (Hex.upper_injective 4 (String.toList_inj.mp second))
  rw [counters, words]

/-- A traced fetch tells the program counter and the word. -/
theorem fetched_injective :
    Function.Injective fun fetch : Word × Word => (fetched fetch.1 fetch.2).record :=
  fun _ _ same => place_injective (congrArg Record.message same)

end Records

end Event

/-- A census lists the events that trace a fetch and counts the errors, the beeps and the waits. -/
structure Census (events traced : List Event) (errors beeps waits : Nat) : Prop where
  traced : events.filter (fun event => event.level = .trace) = traced
  errors : events.countP (fun event => event.level = .error) = errors
  beeps : events.count .beep = beeps
  waits : events.count .awaitingKey = waits

theorem Census.append {first second traced others : List Event}
    {errors beeps waits moreErrors moreBeeps moreWaits : Nat}
    (left : Census first traced errors beeps waits)
    (right : Census second others moreErrors moreBeeps moreWaits) :
    Census (first ++ second) (traced ++ others) (errors + moreErrors) (beeps + moreBeeps)
      (waits + moreWaits) where
  traced := by rw [List.filter_append, left.traced, right.traced]
  errors := by rw [List.countP_append, left.errors, right.errors]
  beeps := by rw [List.count_append, left.beeps, right.beeps]
  waits := by rw [List.count_append, left.waits, right.waits]

/-- The answer reports a fault. -/
def Answer.isFailed : Answer → Bool
  | .failed _ => true
  | _ => false

/-- The answer comes from a step with a beep. -/
def Answer.beeps : Answer → Bool
  | .stepped step => step.beep
  | _ => false

namespace Machine

section Instructions

variable (machine : Machine) (family : Nibble) (word : Word)

/-- The events of the instructions are details. -/
theorem handleEvents_level : ∀ event ∈ machine.handleEvents family word,
    event.level = .debug ∧ event ≠ .beep := by
  intro event member
  rw [handleEvents, List.mem_append] at member
  obtain system | performed := member
  · by_cases zero : family = 0
    · rw [if_pos zero, List.mem_singleton] at system
      rw [system]
      exact ⟨rfl, by simp⟩
    · simp [zero] at system
  · cases decoded : Instruction.decode? family word with
    | none => simp [decoded] at performed
    | some instruction =>
        simp only [decoded] at performed
        cases instruction with
        | leave =>
            obtain ⟨address, -, rfl⟩ := List.mem_map.mp performed
            exact ⟨rfl, by simp⟩
        | awaitKey x =>
            simp only [performEvents] at performed
            split at performed
            · rw [List.mem_singleton] at performed
              rw [performed]
              exact ⟨rfl, by simp⟩
            · cases performed
        | _ => cases performed

/-- A wait is reported once, and nothing else reports a wait. -/
theorem handleEvents_waits : (machine.handleEvents family word).count .awaitingKey =
    if machine.handleSignal family word = .wait then 1 else 0 := by
  have system : (if family = 0 then [Event.system word] else []).count .awaitingKey = 0 := by
    split <;> simp
  rw [handleEvents, List.count_append, system, Nat.zero_add, handleSignal]
  cases Instruction.decode? family word with
  | none => simp
  | some instruction =>
      cases instruction with
      | leave =>
          simp only [performEvents, performSignal]
          cases machine.stack.calls.head? <;> simp
      | awaitKey x =>
          by_cases released : machine.keypad.highest? = none <;>
            simp [performEvents, performSignal, released]
      | _ => rfl

/-- A word that fails does not wait. -/
theorem handleSignal_of_fault {fault : Fault}
    (failed : machine.handleFault? family word = some fault) :
    machine.handleSignal family word ≠ .wait := by
  unfold handleFault? at failed
  unfold handleSignal
  cases decoded : Instruction.decode? family word with
  | none => simp
  | some instruction =>
      rw [decoded] at failed
      cases instruction with
      | awaitKey => cases failed
      | _ => simp [performSignal]

/-- An instruction reports neither a fetch, nor a failure, nor a beep. -/
theorem handleEvents_census : Census (machine.handleEvents family word) [] 0 0
    (if machine.handleSignal family word = .wait then 1 else 0) where
  traced := by
    rw [List.filter_eq_nil_iff]
    intro event member
    simp [(machine.handleEvents_level family word event member).1]
  errors := by
    rw [List.countP_eq_zero]
    intro event member
    simp [(machine.handleEvents_level family word event member).1]
  beeps := by
    rw [List.count_eq_zero]
    exact fun member => (machine.handleEvents_level family word _ member).2 rfl
  waits := machine.handleEvents_waits family word

end Instructions

section Steps

variable (machine : Machine)

/-- A step ends before its fetch, in its fetch, in its instruction, or with the timers. -/
inductive StepReport (machine : Machine) : Except Fault Step → List Event → Prop where
  | unloaded : machine.loaded = false → StepReport machine (.error .unloaded) [.unloaded]
  | fetchFailed (fault : WordFault) : machine.loaded = true → machine.fetch = .error fault →
      StepReport machine (.error (.word fault)) [.fetchFailed fault]
  | failed (word : Word) (fault : Fault) : machine.loaded = true → machine.fetch = .ok word →
      machine.executeFault? word = some fault →
      StepReport machine (.error fault) (.fetched machine.counter word ::
        (machine.executeEvents word ++ [.failed machine.counter word fault]))
  | stepped (word : Word) (step : Step) : machine.loaded = true → machine.fetch = .ok word →
      ((∃ beep, step = .blocked beep) ↔ machine.executeSignal word = .wait) →
      StepReport machine (.ok step) (.fetched machine.counter word ::
        (machine.executeEvents word ++ if step.beep then [.beep] else []))

theorem step_report :
    StepReport machine machine.step.result (machine.stepEvents machine.step.result) := by
  by_cases loaded : machine.loaded
  · cases fetched : machine.fetch with
    | error fault =>
        have reports : machine.stepEvents machine.step.result = [.fetchFailed fault] := by
          simp only [stepEvents, loaded, if_true, fetched]
        have result : machine.step.result = .error (.word fault) := by
          simp only [step, loaded, if_true, fetched]
        rw [reports, result]
        exact .fetchFailed fault loaded fetched
    | ok word =>
        have reports : machine.stepEvents machine.step.result =
            .fetched machine.counter word ::
              (machine.executeEvents word ++ machine.outcomeEvents word machine.step.result) := by
          simp only [stepEvents, loaded, if_true, fetched]
        have reason : machine.stepFault? = machine.executeFault? word := by
          simp only [stepFault?, loaded, if_true, fetched]
        rw [reports]
        obtain ⟨fault, other, found, -, failed⟩ |
            ⟨other, _, _, _, -, -, same, -, -, -, done⟩ := machine.step_cases
        · rw [failed]
          exact .failed word fault loaded fetched (reason.symm.trans found)
        · obtain rfl : word = other := Except.ok.inj (fetched.symm.trans same)
          rw [done]
          exact .stepped word _ loaded fetched (machine.instructed.settle_blocked_iff _)
  · have empty : machine.loaded = false := Bool.eq_false_iff.mpr loaded
    rw [machine.stepEvents_unloaded empty, machine.step_unloaded empty]
    exact .unloaded empty

/-- The fetched word is the only one that is traced. -/
def traced : List Event :=
  (machine.fetchedWord?.map fun word => Event.fetched machine.counter word).toList

theorem traced_eq (loaded : machine.loaded = true) :
    machine.traced =
      match machine.fetch with
      | .ok word => [.fetched machine.counter word]
      | .error _ => [] := by
  cases fetched : machine.fetch <;> simp [traced, fetchedWord?, loaded, fetched, Except.toOption]

theorem fetched_census (counter word : Word) :
    Census [.fetched counter word] [.fetched counter word] 0 0 0 :=
  ⟨rfl, rfl, rfl, rfl⟩

theorem StepReport.census {machine : Machine} {result : Except Fault Step} {events : List Event}
    (report : StepReport machine result events) :
    Census events machine.traced (Answer.ofStep result).isFailed.toNat
      (Answer.ofStep result).beeps.toNat (Answer.ofStep result).isBlocked.toNat := by
  cases report with
  | unloaded empty =>
      have quiet : machine.traced = [] := by simp [traced, fetchedWord?, empty]
      rw [quiet]
      exact ⟨rfl, rfl, rfl, rfl⟩
  | fetchFailed fault loaded failed =>
      rw [machine.traced_eq loaded, failed]
      exact ⟨rfl, rfl, rfl, rfl⟩
  | failed word fault loaded fetched failed =>
      have last : Census [.failed machine.counter word fault] [] 1 0 0 := ⟨rfl, rfl, rfl, rfl⟩
      have details := machine.handleEvents_census word.family word
      rw [if_neg (machine.handleSignal_of_fault _ _ failed)] at details
      rw [machine.traced_eq loaded, fetched]
      exact (fetched_census machine.counter word).append (details.append last)
  | stepped word step loaded fetched blocked =>
      have last : Census (if step.beep then [.beep] else []) [] 0 step.beep.toNat 0 := by
        cases step.beep <;> exact ⟨rfl, rfl, rfl, rfl⟩
      have details := machine.handleEvents_census word.family word
      have waits : (if machine.handleSignal word.family word = .wait then 1 else 0) =
          (Answer.ofStep (.ok step)).isBlocked.toNat := by
        have blocks : machine.handleSignal word.family word = .wait ↔
            ∃ beep, step = .blocked beep := blocked.symm
        simp only [blocks]
        cases step <;> simp [Answer.ofStep, Answer.isBlocked]
      rw [waits] at details
      rw [machine.traced_eq loaded, fetched]
      have all := (fetched_census machine.counter word).append (details.append last)
      simp only [Nat.zero_add, Nat.add_zero, List.append_nil] at all
      exact all

theorem StepReport.of_unloaded {machine : Machine} {result : Except Fault Step}
    {events : List Event} (report : StepReport machine result events)
    (empty : machine.loaded = false) : events = [.unloaded] := by
  cases report with
  | unloaded => rfl
  | fetchFailed _ loaded | failed _ _ loaded | stepped _ _ loaded =>
      rw [empty] at loaded
      cases loaded

theorem apply_stepEvents (operation : Operation) (stepping : operation.isStep) :
    (machine.apply operation).events = machine.stepEvents machine.step.result := by
  cases operation with
  | step => rfl
  | tick => exact congrArg machine.stepEvents machine.tick_result
  | _ => cases stepping

/-- A step writes one error if it fails, and a fetch, a beep and a wait once each if they happen. -/
structure StepLogs (machine : Machine) (operation : Operation) (own : List Record) : Prop where
  written (filter : Filter) (records : List Record) :
    Bare.Logged.apply filter ⟨machine.bare, records⟩ operation =
      .ok ((machine.apply operation).bare, records ++ filter.select own)
  unloaded : machine.loaded = false → own = [Event.unloaded.record]
  traced : machine.loaded = true → own.filter (fun record => record.level = .trace) =
    match machine.fetch with
    | .ok word => [(Event.fetched machine.counter word).record]
    | .error _ => []
  errors : own.countP (fun record => record.level = .error) =
    (machine.apply operation).answer.isFailed.toNat
  beeps : own.count Event.beep.record = (machine.apply operation).answer.beeps.toNat
  waits : own.count Event.awaitingKey.record = (machine.apply operation).answer.isBlocked.toNat

theorem step_logs (operation : Operation) (stepping : operation.isStep) :
    StepLogs machine operation ((machine.apply operation).events.map Event.record) := by
  have report := machine.step_report
  have census := report.census
  rw [← machine.apply_stepEvents operation stepping] at report census
  rw [← (machine.apply_step operation stepping).1] at census
  constructor
  case written =>
    exact fun filter records => Bare.Logged.apply_logged filter machine records operation
  case unloaded =>
    intro empty
    rw [report.of_unloaded empty]
    rfl
  case traced =>
    intro loaded
    refine List.filter_map.trans ((congrArg (List.map Event.record) census.traced).trans ?_)
    rw [machine.traced_eq loaded]
    cases machine.fetch <;> rfl
  case errors => exact List.countP_map.trans census.errors
  case beeps => exact (Event.count_record Event.record_eq_beep_iff _).trans census.beeps
  case waits => exact (Event.count_record Event.record_eq_awaitingKey_iff _).trans census.waits

end Steps

section Run

variable (machine : Machine)

/-- The words that the steps of a history fetch, behind the program counters at which they stand. -/
def fetches (machine : Machine) : List Operation → List (Word × Word)
  | [] => []
  | operation :: rest =>
      (if operation.isStep then
        (machine.fetchedWord?.map fun word => (machine.counter, word)).toList
      else []) ++ (machine.apply operation).machine.fetches rest

/-- Only steps and ticks trace a word. -/
theorem apply_traced (operation : Operation) :
    (machine.apply operation).events.filter (fun event => event.level = .trace) =
      if operation.isStep then machine.traced else [] := by
  by_cases stepping : operation.isStep
  · rw [if_pos stepping, machine.apply_stepEvents operation stepping]
    exact machine.step_report.census.traced
  · rw [if_neg stepping]
    cases operation with
    | step | tick => exact absurd rfl stepping
    | execute word => exact (machine.handleEvents_census word.family word).traced
    | handle family word => exact (machine.handleEvents_census family word).traced
    | load name data =>
        simp only [apply, applyLoad]
        cases Rom.ofData name data <;> rfl
    | loadFile files path =>
        simp only [apply, applyLoadFile]
        cases Rom.ofFile files path <;> rfl
    | _ => rfl

theorem events_traced (operations : List Operation) :
    (machine.events operations).filter (fun event => event.level = .trace) =
      (machine.fetches operations).map fun fetch => .fetched fetch.1 fetch.2 := by
  induction operations generalizing machine with
  | nil => rfl
  | cons operation rest inductionHypothesis =>
      have later := inductionHypothesis (machine.apply operation).machine
      simp only [events] at later ⊢
      rw [replies_cons, List.flatMap_cons, List.filter_append, later, apply_traced, fetches,
        List.map_append]
      congr 1
      by_cases stepping : operation.isStep
      · rw [if_pos stepping, if_pos stepping, traced]
        cases machine.fetchedWord? <;> rfl
      · rw [if_neg stepping, if_neg stepping]
        rfl

/-- A log is kept beside a machine that works as it would without one. It holds those records of its
trace that the filter lets through, and the trace lists all fetched words. -/
structure Logs (machine : Machine) (operations : List Operation) (trace : List Record) : Prop where
  unlogged : machine.bare.replies operations = .ok ((machine.replies operations).map Reply.bare)
  logged (filter : Filter) (records : List Record) :
    Bare.Logged.replies filter ⟨machine.bare, records⟩ operations =
      .ok ((machine.replies operations).map Reply.bare, records ++ filter.select trace)
  whole : Filter.select (.upTo .trace) trace = trace
  fetched : trace.filter (fun record => record.level = .trace) =
    (machine.fetches operations).map fun fetch => (Event.fetched fetch.1 fetch.2).record
  /-- The record of a fetch tells the program counter and the word. -/
  readable : Function.Injective fun fetch : Word × Word => (Event.fetched fetch.1 fetch.2).record

theorem run_logs (operations : List Operation) :
    Logs machine operations ((machine.events operations).map Event.record) where
  unlogged := Bare.replies_bare machine operations
  logged filter records := Bare.Logged.replies_logged filter machine records operations
  whole := by
    refine List.filter_eq_self.mpr fun record _ => ?_
    cases record.level <;> rfl
  fetched := by
    refine List.filter_map.trans ((congrArg (List.map Event.record) ?_).trans List.map_map)
    exact machine.events_traced operations
  readable := Event.fetched_injective

/-- The log tells what happened and changes nothing. -/
theorem log_faithful (machine : Machine) (operations : List Operation) :
    (∃ trace, Logs machine operations trace) ∧
      ∀ operation, operation.isStep → ∃ own, StepLogs machine operation own :=
  ⟨⟨_, machine.run_logs operations⟩, fun operation stepping =>
    ⟨_, machine.step_logs operation stepping⟩⟩

/-- The word at which the machine waits is traced as often as it is fetched, and a word that is executed
without a fetch is not traced. -/
theorem log_faithful_waiting :
    let machine := (initial {} (.arithmetic 0 1)).load
      ⟨"", [0x60, 0x01, 0xF1, 0x0A], by decide, by decide⟩
    let operations := [Operation.step, .tick, .execute 0x00EE, .step]
    ∃ trace, Logs machine operations trace ∧
      trace.filter (fun record => record.level = .trace) =
        [(Event.fetched 0x200 0x6001).record, (Event.fetched 0x202 0xF10A).record,
          (Event.fetched 0x202 0xF10A).record] ∧
      ∃ own, StepLogs (machine.after operations) .step own ∧
        own.count Event.awaitingKey.record = 1 := by
  intro machine operations
  obtain ⟨⟨trace, logs⟩, -⟩ := log_faithful machine operations
  obtain ⟨own, step⟩ := (log_faithful (machine.after operations) []).2 .step rfl
  have fetches : machine.fetches operations =
      [(0x200, 0x6001), (0x202, 0xF10A), (0x202, 0xF10A)] := by decide +kernel
  have waits : ((machine.after operations).apply .step).answer.isBlocked = true := by
    decide +kernel
  refine ⟨trace, logs, ?_, own, step, ?_⟩
  · rw [logs.fetched, fetches]
    rfl
  · rw [step.waits, waits]
    rfl

end Run

end Machine

end ChipEight
