/-
This file shows that a logged machine works as a machine without a log does, and that it writes the
records of the events.
-/
import ChipEight.Bare.Logged
import ChipEight.Proofs.Bare.Operations
import ChipEight.Proofs.Decoding
import ChipEight.Proofs.Execution

namespace ChipEight

/-- The filter decides which events leave a record. -/
def Filter.written (filter : Filter) (events : List Event) : List Record :=
  filter.select (events.map Event.record)

namespace Filter

variable (filter : Filter)

@[simp] theorem written_nil : filter.written [] = [] := rfl

theorem written_append (first second : List Event) :
    filter.written (first ++ second) = filter.written first ++ filter.written second := by
  simp only [written, select, List.map_append, List.filter_append]

theorem written_cons (event : Event) (rest : List Event) :
    filter.written (event :: rest) = filter.written [event] ++ filter.written rest :=
  filter.written_append [event] rest

end Filter

theorem Machine.tick_result (machine : Machine) : machine.tick.result = machine.step.result := by
  rw [tick]
  rcases machine.step with ⟨stepped, _ | step⟩ <;> rfl

namespace Bare.Logged

section Runs

variable {A : Type}

@[simp] theorem beside_ok (records : List Record) (value : A) (bare : Bare) :
    beside records (.ok value bare) = .ok value ⟨bare, records⟩ := rfl

@[simp] theorem beside_error (records : List Record) (stop : Stop) (bare : Bare) :
    beside records (.error stop bare : EStateM.Result Stop Bare A) =
      .error stop ⟨bare, records⟩ := rfl

@[simp] theorem silent_apply (action : Bare.Action A) (bare : Bare) (records : List Record) :
    silent action ⟨bare, records⟩ = beside records (action bare) := rfl

@[simp] theorem write_apply (filter : Filter) (event : Event) (bare : Bare)
    (records : List Record) :
    write filter event ⟨bare, records⟩ = .ok ⟨⟩ ⟨bare, records ++ filter.written [event]⟩ := by
  have level : event.record.level = event.level := rfl
  rw [write, modify_apply]
  by_cases allowed : filter.allows event.level <;>
    simp [allowed, level, Filter.written, Filter.select]

/-- Reporting does not change how the action ends, unless the report itself stops. -/
theorem reporting_apply (action : Action A) (report : Fault → Action PUnit) (logged : Logged) :
    reporting action report logged =
      match action logged with
      | .ok value next => .ok value next
      | .error (.fault fault) next =>
          match report fault next with
          | .ok _ reported => .error (.fault fault) reported
          | .error stop reported => .error stop reported
      | .error (.panic panic) next => .error (.panic panic) next := by
  change EStateM.tryCatch action _ logged = _
  unfold EStateM.tryCatch
  rcases action logged with ⟨value, next⟩ | ⟨fault | panic, next⟩
  · rfl
  · change (report fault >>= fun _ => throw (.fault fault)) next = _
    rw [bind_apply]
    cases reported : report fault next <;> simp only [reported, throw_apply]
  · rfl

end Runs

section Layers

variable (filter : Filter) (machine : Machine) (records : List Record)

theorem system_logged (word : Word) :
    system filter word ⟨machine.bare, records⟩ =
      beside (records ++ filter.written (machine.handleEvents 0 word))
        (machine.handle 0 word).bare := by
  simp only [system, bind_apply, write_apply, ite_run, silent_apply]
  by_cases leave : word = 0x00EE
  · subst leave
    have events : machine.handleEvents 0 0x00EE =
        .system 0x00EE :: machine.stack.calls.head?.toList.map .returning := rfl
    have decoded : machine.handle 0 0x00EE = machine.perform .leave := rfl
    rw [if_pos rfl, events, filter.written_cons, ← List.append_assoc, decoded, popCall_bare,
      Machine.perform]
    cases outcome : machine.stack.pop with
    | error fault =>
        obtain ⟨-, empty⟩ := (CallStack.popError _ _).mp outcome
        simp [empty, Attempt.bare]
    | ok popped =>
        obtain ⟨caller, stack⟩ := popped
        have shape := (CallStack.popOk _ _ _).mp outcome
        simp [shape, Attempt.bare, ← filter.written_cons]
  · have events : machine.handleEvents 0 word = [.system word] := by
      by_cases clear : word = 0x00E0 <;>
        simp [Machine.handleEvents, Instruction.decode?, clear, leave, Machine.performEvents]
    rw [if_neg leave, system_bare, events]

theorem awaitKey_logged (x : Nibble) :
    awaitKey filter x.val ⟨machine.bare, records⟩ =
      beside (records ++ filter.written (machine.performEvents (.awaitKey x)))
        (machine.perform (.awaitKey x)).bare := by
  simp only [awaitKey, bind_apply, silent_apply, get_apply, beside_ok, keypad_bare,
    Machine.performEvents, Machine.perform]
  cases pressed : machine.keypad.highest? with
  | none =>
      simp only [bind_apply, write_apply, pure_apply]
      rfl
  | some key => simp [Bare.awaitKey, pressed, Attempt.bare]

/-- Only family `0` and the wait for a key have events of their own. -/
theorem handleEvents_silent (family : Nibble) (word : Word) (system : family ≠ 0)
    (other : ¬ (family = 15 ∧ word.byte = 0x0A)) : machine.handleEvents family word = [] := by
  rw [Machine.handleEvents, if_neg system]
  cases decoded : Instruction.decode? family word with
  | none => rfl
  | some instruction =>
      have encodes := (Instruction.decode_eq_some_iff _ _ _).mp decoded
      cases instruction with
      | leave => exact absurd encodes.1 system
      | awaitKey => exact absurd ⟨encodes.1, encodes.2.2⟩ other
      | _ => rfl

theorem other_logged (word : Word) :
    other filter word ⟨machine.bare, records⟩ =
      beside (records ++ filter.written (machine.handleEvents 15 word))
        (machine.handle 15 word).bare := by
  rw [other, ite_run, byte_eq]
  by_cases waits : word.byte = 0x0A
  · have decoded : Instruction.decode? 15 word = some (.awaitKey word.x) := by
      rw [Instruction.decode_eq_some_iff]
      exact ⟨rfl, rfl, waits⟩
    rw [if_pos waits, x_eq, awaitKey_logged, Machine.handleEvents, Machine.handle, decoded]
    rfl
  · have quiet := handleEvents_silent machine 15 word (by decide) fun both => waits both.2
    rw [if_neg waits, silent_apply, other_bare, quiet, Filter.written_nil, List.append_nil]

theorem handle_logged (family : Nibble) (word : Word) :
    handle filter family.val word ⟨machine.bare, records⟩ =
      beside (records ++ filter.written (machine.handleEvents family word))
        (machine.handle family word).bare := by
  by_cases system : family = 0
  · subst system
    exact system_logged filter machine records word
  · by_cases other : family = 15
    · subst other
      exact other_logged filter machine records word
    · have silence : handle filter family.val word = silent (Bare.handle family.val word) := by
        unfold handle
        split
        · exact absurd (Fin.ext ‹_›) system
        · exact absurd (Fin.ext ‹_›) other
        · rfl
      have quiet := handleEvents_silent machine family word system fun both => other both.1
      rw [silence, silent_apply, handle_bare, quiet, Filter.written_nil, List.append_nil]

theorem execute_logged (word : Word) :
    execute filter word ⟨machine.bare, records⟩ =
      beside (records ++ filter.written (machine.executeEvents word))
        (machine.execute word).bare := by
  simp only [execute, bind_apply, family_eq, handle_logged, Machine.execute, Machine.executeEvents]
  rcases machine.handle word.family word with ⟨handled, _ | effect⟩
  · rfl
  · rfl

theorem tickTimers_logged :
    tickTimers filter ⟨machine.bare, records⟩ =
      .ok machine.beeps ⟨machine.tickTimers.bare,
        records ++ filter.written (if machine.beeps then [.beep] else [])⟩ := by
  simp only [tickTimers, bind_apply, silent_apply, tickTimers_bare, beside_ok]
  cases machine.beeps with
  | true => simp
  | false => simp

theorem settle_logged (signal : Signal) :
    settle filter signal ⟨machine.bare, records⟩ =
      .ok (machine.settle signal).2 ⟨(machine.settle signal).1.bare,
        records ++ filter.written (if (machine.settle signal).2.beep then [.beep] else [])⟩ := by
  simp only [settle, bind_apply, silent_apply, get_apply, beside_ok, ite_run, tickTimers_logged,
    pure_apply]
  cases signal with
  | wait =>
      rw [Machine.settle]
      cases ticking : machine.config.tickWhileBlocked <;> simp [ticking, Step.beep]
  | none => rfl
  | draw => rfl

theorem reportFault_logged (fault : Fault) :
    reportFault filter fault ⟨machine.bare, records⟩ =
      .ok ⟨⟩ ⟨machine.bare,
        records ++ filter.written [.failed machine.counter machine.fetched fault]⟩ := by
  simp only [reportFault, bind_apply, silent_apply, get_apply, beside_ok, write_apply]
  rfl

/-- The machine that a failing word leaves is the one that executed it. -/
theorem executeFetched_logged (word : Word) :
    executeFetched filter word ⟨(machine.keepFetched word).bare, records⟩ =
      beside (records ++ filter.written (machine.executeEvents word ++
        machine.outcomeEvents word (machine.executeFetched word).result))
        (machine.executeFetched word).bare := by
  have events : (machine.keepFetched word).executeEvents word = machine.executeEvents word := rfl
  rw [executeFetched, bind_apply, reporting_apply, execute_logged, events, Machine.executeFetched,
    Filter.written_append, ← List.append_assoc]
  obtain ⟨fault, -, failed⟩ | ⟨instruction, handled, move, -, -, done, -⟩ :=
    (machine.keepFetched word).execute_cases word
  · rw [failed]
    simp only [Attempt.bare, beside_error, reportFault_logged]
    rfl
  · rw [done]
    simp only [Attempt.bare, beside_ok, settle_logged]
    rfl

theorem step_logged :
    step filter ⟨machine.bare, records⟩ =
      beside (records ++ filter.written (machine.stepEvents machine.step.result))
        machine.step.bare := by
  simp only [step, bind_apply, silent_apply, get_apply, beside_ok, ite_run, reporting_apply,
    fetch_bare, Machine.step, Machine.stepEvents]
  by_cases loaded : machine.loaded
  · simp only [loaded_bare, loaded, if_true]
    cases machine.fetch with
    | error fault => simp [reportFetch, Attempt.bare]
    | ok word =>
        simp only [beside_ok, write_apply, executeFetched_logged, counter_bare]
        rw [List.append_assoc, ← Filter.written_append]
        rfl
  · simp only [loaded_bare, loaded, write_apply, throw_apply]
    rfl

theorem tick_logged :
    tick filter ⟨machine.bare, records⟩ =
      beside (records ++ filter.written (machine.stepEvents machine.tick.result))
        (Bare.tick machine.bare) := by
  simp only [tick, Bare.tick, bind_apply, step_logged, step_bare, machine.tick_result]
  rcases machine.step with ⟨stepped, fault | step⟩
  · rfl
  · simp only [Attempt.bare, beside_ok, bind_apply, silent_apply, takeDirty, get_apply, set_apply,
      pure_apply]

theorem load_logged (rom : Rom) :
    load filter rom ⟨machine.bare, records⟩ =
      .ok ⟨⟩ ⟨(machine.load rom).bare,
        records ++ filter.written [.loaded rom.name rom.data.length]⟩ := by
  simp only [load, bind_apply, silent_apply, load_bare, beside_ok, write_apply]

end Layers

section Operations

variable (filter : Filter) (machine : Machine) (records : List Record)

theorem applyLoad_logged (name : String) (data : List UInt8) :
    applyLoad filter name data ⟨machine.bare, records⟩ =
      beside (records ++ filter.written (machine.applyLoad name data).events)
        (Bare.applyLoad name data machine.bare) := by
  simp only [applyLoad, Bare.applyLoad, Machine.applyLoad]
  cases Rom.ofData name data with
  | error fault => simp
  | ok rom => simp only [bind_apply, load_logged, load_bare, pure_apply, beside_ok]

theorem applyLoadFile_logged (files : FileTree) (path : String) :
    applyLoadFile filter files path ⟨machine.bare, records⟩ =
      beside (records ++ filter.written (machine.applyLoadFile files path).events)
        (Bare.applyLoadFile files path machine.bare) := by
  simp only [applyLoadFile, Bare.applyLoadFile, Machine.applyLoadFile]
  cases Rom.ofFile files path with
  | error fault => simp [unload]
  | ok rom => simp only [bind_apply, load_logged, load_bare, pure_apply, beside_ok]

variable {machine} {records}

/-- Reading off an answer writes nothing. -/
theorem answering_logged {A : Type} {action : Action A} {plain : Bare.Action A}
    {written : List Record}
    (same : action ⟨machine.bare, records⟩ = beside written (plain machine.bare))
    (answer : A → Answer) :
    answering action answer ⟨machine.bare, records⟩ =
      beside written (Bare.answering plain answer machine.bare) := by
  simp only [answering, Bare.answering, bind_apply, same]
  cases plain machine.bare <;> rfl

variable (machine) (records)

theorem act_logged (operation : Operation) :
    act filter operation ⟨machine.bare, records⟩ =
      beside (records ++ filter.written (machine.apply operation).events)
        (Bare.act operation machine.bare) := by
  cases operation with
  | load name data => exact answering_logged (applyLoad_logged filter machine records name data) id
  | loadFile files path =>
      exact answering_logged (applyLoadFile_logged filter machine records files path) id
  | step =>
      refine answering_logged (?_ : _ = beside _ (Bare.step machine.bare)) _
      rw [step_logged, step_bare]
      rfl
  | tick =>
      simp only [act, Bare.act, bind_apply, tick_logged]
      cases Bare.tick machine.bare <;> rfl
  | execute word =>
      refine answering_logged (?_ : _ = beside _ (Bare.execute word machine.bare)) _
      rw [execute_logged, execute_bare]
      rfl
  | handle family word =>
      refine answering_logged (?_ : _ = beside _ (Bare.handle family.val word machine.bare)) _
      rw [handle_logged, handle_bare]
      rfl
  | advance | setKeypad | setKey | toggleKey | setGenerator | takeDirty | reset =>
      simp only [act, silent_apply, Machine.apply, Filter.written_nil, List.append_nil]

theorem apply_logged (operation : Operation) :
    apply filter ⟨machine.bare, records⟩ operation =
      .ok ((machine.apply operation).bare,
        records ++ filter.written (machine.apply operation).events) := by
  have replied := apply_bare machine operation
  unfold Bare.apply at replied
  rw [apply, act_logged]
  revert replied
  rcases Bare.act operation machine.bare with ⟨⟨answer, forwarded⟩, next⟩ | ⟨fault | panic, next⟩
  · intro replied
    simp only [beside_ok, ← Except.ok.inj replied]
  · intro replied
    simp only [beside_error, ← Except.ok.inj replied]
  · intro panics
    cases panics

/-- The log changes neither a reply nor what is replied later, and its records are those of the events
that the filter lets through. -/
theorem replies_logged (operations : List Operation) :
    replies filter ⟨machine.bare, records⟩ operations =
      .ok ((machine.replies operations).map ChipEight.Reply.bare,
        records ++ machine.log filter operations) := by
  induction operations generalizing machine records with
  | nil => simp [replies, Machine.log, Machine.events, Filter.select]
  | cons operation rest inductionHypothesis =>
      have next := inductionHypothesis (machine.apply operation).machine
        (records ++ filter.written (machine.apply operation).events)
      have log : machine.log filter (operation :: rest) =
          filter.written (machine.apply operation).events ++
            (machine.apply operation).machine.log filter rest := filter.written_append _ _
      simp only [replies, apply_logged]
      rw [show (machine.apply operation).bare.bare = (machine.apply operation).machine.bare from rfl,
        next, log, List.append_assoc]
      rfl

end Operations

end Bare.Logged
end ChipEight
