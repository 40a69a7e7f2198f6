/-
This file runs two machines side by side that differ only in a part which their instructions do not
look at.
-/
import Mathlib.Data.List.Forall2
import ChipEight.Machine.History
import ChipEight.Proofs.Effect

namespace ChipEight

/-- The machines agree but for the part that is set. -/
def SameBut {Part : Type} (set : Machine → Part → Machine) (left right : Machine) : Prop :=
  ∃ part, right = set left part

/-- Related attempts end alike, and the machines that they leave behind are related. -/
structure Attempt.Related {A : Type} (related : Machine → Machine → Prop)
    (left right : Attempt A) : Prop where
  result : right.result = left.result
  machine : related left.machine right.machine

/-- Related attempts fail with the same fault or succeed with the same value. -/
theorem Attempt.Related.cases {A : Type} {related : Machine → Machine → Prop}
    {left right : Attempt A} (alike : Attempt.Related related left right) :
    (∃ first second fault, left = ⟨first, .error fault⟩ ∧ right = ⟨second, .error fault⟩ ∧
      related first second) ∨
    (∃ first second value, left = ⟨first, .ok value⟩ ∧ right = ⟨second, .ok value⟩ ∧
      related first second) := by
  rcases right with ⟨second, result⟩
  rcases left with ⟨first, fault | value⟩
  · obtain rfl : result = .error fault := alike.result
    exact .inl ⟨first, second, fault, rfl, rfl, alike.machine⟩
  · obtain rfl : result = .ok value := alike.result
    exact .inr ⟨first, second, value, rfl, rfl, alike.machine⟩

/-- Related replies differ at most in their machines, and these are related. -/
structure Reply.Related (related : Machine → Machine → Prop) (left right : Reply) : Prop where
  answer : right.answer = left.answer
  events : right.events = left.events
  forwarded : right.forwarded = left.forwarded
  machine : related left.machine right.machine

/-- A direct operation executes no instruction. -/
def Operation.isDirect : Operation → Bool
  | .step | .tick | .execute _ | .handle _ _ => false
  | _ => true

/-- Related machines execute the same words, and permitted instructions keep them related. -/
structure ExecuteLockstep (permitted : Instruction → Prop) (related : Machine → Machine → Prop) :
    Prop where
  loaded {left right : Machine} : related left right → right.loaded = left.loaded
  fetch {left right : Machine} : related left right → right.fetch = left.fetch
  keepFetched {left right : Machine} (word : Word) : related left right →
    related (left.keepFetched word) (right.keepFetched word)
  advance {left right : Machine} (move : Advance) : related left right →
    related (left.advance move) (right.advance move)
  perform {left right : Machine} {instruction : Instruction} : permitted instruction →
    related left right →
      Attempt.Related related (left.perform instruction) (right.perform instruction)

/-- The timers of related machines also do the same in every step. -/
structure StepLockstep (permitted : Instruction → Prop) (related : Machine → Machine → Prop) :
    Prop extends ExecuteLockstep permitted related where
  ticking {left right : Machine} : related left right →
    right.config.tickWhileBlocked = left.config.tickWhileBlocked
  beeps {left right : Machine} : related left right → right.beeps = left.beeps
  tickTimers {left right : Machine} : related left right →
    related left.tickTimers right.tickTimers

/-- Related machines also report the same, and direct operations keep them related. -/
structure Lockstep (permitted : Instruction → Prop) (related : Machine → Machine → Prop) : Prop
    extends StepLockstep permitted related where
  counter {left right : Machine} : related left right → right.counter = left.counter
  dirty {left right : Machine} : related left right → right.dirty = left.dirty
  display {left right : Machine} : related left right → right.display = left.display
  performEvents {left right : Machine} {instruction : Instruction} : permitted instruction →
    related left right → right.performEvents instruction = left.performEvents instruction
  direct {left right : Machine} {operation : Operation} : operation.isDirect → related left right →
    Reply.Related related (left.apply operation) (right.apply operation)

/-- Most instructions neither read nor change these parts. -/
structure Aside where
  fetched : Word
  dirty : Bool
  keypad : Keypad
  generator : Generator

/-- A plain instruction does not draw, and it asks neither for keys nor for random bytes. -/
def Instruction.isPlain : Instruction → Bool
  | .clear | .draw _ _ _ | .random _ _ => false
  | .skipIfPressed _ | .skipIfReleased _ | .awaitKey _ => false
  | _ => true

namespace Machine

/-- The instruction that an operation executes, if there is one. -/
def instructionOf? (machine : Machine) : Operation → Option Instruction
  | .step | .tick => machine.instruction?
  | .execute word => Instruction.decode? word.family word
  | .handle family word => Instruction.decode? family word
  | _ => none

/-- The instructions keep the order of the operations that execute them. -/
def instructions (machine : Machine) : List Operation → List Instruction
  | [] => []
  | operation :: rest =>
      (machine.instructionOf? operation).toList ++ (machine.apply operation).machine.instructions rest

section Shape

variable (machine : Machine)

/-- Only three parts follow the cadence. -/
theorem tickTimers_eq :
    machine.tickTimers = { machine with
      cadence := machine.cadence.advance
      delay := if machine.cadence.isDue then machine.delay.decrement else machine.delay
      sound := if machine.cadence.isDue then machine.sound.decrement else machine.sound } := by
  unfold tickTimers
  split <;> rfl

/-- A glyph that is refused leaves the index register alone. -/
theorem selectGlyph_eq (x : Nibble) :
    machine.perform (.selectGlyph x) =
      let offset := (machine.register x).toNat * Font.glyphSize
      let location := Font.location + offset
      ⟨{ machine with
          index := if Font.glyphs.length < offset then machine.index else UInt16.ofNat location },
        if Font.glyphs.length < offset then .error (.glyph location) else .ok {}⟩ := by
  simp only [perform]
  split <;> rfl

end Shape

section Aside

def aside (machine : Machine) : Aside where
  fetched := machine.fetched
  dirty := machine.dirty
  keypad := machine.keypad
  generator := machine.generator

def setAside (machine : Machine) (aside : Aside) : Machine :=
  { machine with
    fetched := aside.fetched
    dirty := aside.dirty
    keypad := aside.keypad
    generator := aside.generator }

/-- The part that is set is one that lies aside. -/
def LiesAside {Part : Type} (set : Machine → Part → Machine) : Prop :=
  ∃ place : Aside → Part → Aside, ∀ machine part,
    set machine part = machine.setAside (place machine.aside part)

variable (machine : Machine) {instruction : Instruction}

theorem perform_setAside (aside : Aside) (plain : instruction.isPlain) :
    (machine.setAside aside).perform instruction =
      ⟨(machine.perform instruction).machine.setAside aside,
        (machine.perform instruction).result⟩ := by
  cases instruction with
  | clear | draw | random | skipIfPressed | skipIfReleased | awaitKey => cases plain
  | leave =>
      simp only [perform, setAside]
      cases machine.stack.pop <;> rfl
  | call target =>
      simp only [perform, setAside]
      cases machine.stack.push machine.counter <;> rfl
  | selectGlyph x =>
      rw [selectGlyph_eq, selectGlyph_eq]
      rfl
  | combine operator x y =>
      simp only [perform, combine, setAside, register]
      split <;> rfl
  | _ => rfl

theorem perform_aside (plain : instruction.isPlain) :
    (machine.perform instruction).machine.aside = machine.aside :=
  -- What lies aside already can be set aside without a change.
  congrArg (·.machine.aside) (machine.perform_setAside machine.aside plain)

theorem perform_liesAside {Part : Type} {set : Machine → Part → Machine} (lies : LiesAside set)
    (part : Part) (plain : instruction.isPlain) :
    Attempt.Related (SameBut set) (machine.perform instruction)
      ((set machine part).perform instruction) := by
  obtain ⟨place, shape⟩ := lies
  rw [shape, perform_setAside _ _ plain]
  exact ⟨rfl, part, by rw [shape, perform_aside _ plain]⟩

/-- If a part lies aside, only the other instructions can tell two machines apart by it. -/
theorem stepLockstep_of_liesAside {Part : Type} {set : Machine → Part → Machine}
    {permitted : Instruction → Prop} (lies : LiesAside set)
    (keepFetched : ∀ machine part word,
      SameBut set (machine.keepFetched word) ((set machine part).keepFetched word))
    (other : ∀ machine part instruction, permitted instruction → instruction.isPlain = false →
      Attempt.Related (SameBut set) (machine.perform instruction)
        ((set machine part).perform instruction)) :
    StepLockstep permitted (SameBut set) := by
  have shaped := lies
  obtain ⟨place, shape⟩ := shaped
  refine ⟨⟨?loaded, ?fetch, ?keepFetched, ?advance, ?perform⟩, ?ticking, ?beeps, ?tickTimers⟩
  case loaded => rintro _ _ ⟨part, rfl⟩; rw [shape]; rfl
  case fetch => rintro _ _ ⟨part, rfl⟩; rw [shape]; rfl
  case ticking => rintro _ _ ⟨part, rfl⟩; rw [shape]; rfl
  case beeps => rintro _ _ ⟨part, rfl⟩; rw [shape]; rfl
  case keepFetched => rintro machine _ word ⟨part, rfl⟩; exact keepFetched machine part word
  case advance => rintro _ _ move ⟨part, rfl⟩; exact ⟨part, by rw [shape, shape]; rfl⟩
  case tickTimers =>
    rintro _ _ ⟨part, rfl⟩
    exact ⟨part, by rw [shape, shape, tickTimers_eq, tickTimers_eq]; rfl⟩
  case perform =>
    rintro machine _ instruction allowed ⟨part, rfl⟩
    cases plain : instruction.isPlain with
    | true => exact machine.perform_liesAside lies part plain
    | false => exact other machine part instruction allowed plain

end Aside

section Step

variable {permitted : Instruction → Prop} {related : Machine → Machine → Prop}
  {left right : Machine}

theorem handle_lockstep (lockstep : ExecuteLockstep permitted related) (same : related left right)
    (family : Nibble) (word : Word)
    (allowed : ∀ instruction ∈ Instruction.decode? family word, permitted instruction) :
    Attempt.Related related (left.handle family word) (right.handle family word) := by
  unfold handle
  cases decoded : Instruction.decode? family word with
  | none => exact ⟨rfl, same⟩
  | some instruction => exact lockstep.perform (allowed instruction decoded) same

theorem execute_lockstep (lockstep : ExecuteLockstep permitted related) (same : related left right)
    (word : Word)
    (allowed : ∀ instruction ∈ Instruction.decode? word.family word, permitted instruction) :
    Attempt.Related related (left.execute word) (right.execute word) := by
  unfold execute
  obtain ⟨first, second, fault, failed, failed', handled⟩ |
      ⟨first, second, effect, done, done', handled⟩ :=
    (handle_lockstep lockstep same word.family word allowed).cases
  · rw [failed, failed']
    exact ⟨rfl, handled⟩
  · rw [done, done']
    exact ⟨rfl, lockstep.advance effect.advance handled⟩

/-- Related machines fail alike, or else their timers follow related machines and one signal. -/
theorem step_cases_lockstep (lockstep : ExecuteLockstep permitted related)
    (same : related left right)
    (allowed : ∀ instruction ∈ left.instruction?, permitted instruction) :
    (∃ first second fault, left.step = ⟨first, .error fault⟩ ∧ right.step = ⟨second, .error fault⟩ ∧
      related first second) ∨
    (∃ first second signal, left.step = ⟨(first.settle signal).1, .ok (first.settle signal).2⟩ ∧
      right.step = ⟨(second.settle signal).1, .ok (second.settle signal).2⟩ ∧
      related first second) := by
  have fetch := lockstep.fetch same
  unfold step
  rw [lockstep.loaded same, fetch]
  by_cases loaded : left.loaded
  · cases fetched : left.fetch with
    | error fault =>
        simp only [loaded, if_true]
        exact .inl ⟨left, right, _, rfl, rfl, same⟩
    | ok word =>
        have decoded : ∀ instruction ∈ Instruction.decode? word.family word,
            permitted instruction := fun instruction decoded =>
          allowed instruction
            ((left.instruction?_eq_some_iff instruction).mpr ⟨loaded, word, fetched, decoded⟩)
        simp only [loaded, if_true, executeFetched]
        obtain ⟨first, second, fault, failed, failed', executed⟩ |
            ⟨first, second, signal, done, done', executed⟩ :=
          (execute_lockstep lockstep (lockstep.keepFetched word same) word decoded).cases
        · rw [failed, failed']
          exact .inl ⟨first, second, fault, rfl, rfl, executed⟩
        · rw [done, done']
          exact .inr ⟨first, second, signal, rfl, rfl, executed⟩
  · simp only [loaded]
    exact .inl ⟨left, right, _, rfl, rfl, same⟩

theorem settle_lockstep (lockstep : StepLockstep permitted related) (same : related left right)
    (signal : Signal) :
    (right.settle signal).2 = (left.settle signal).2 ∧
      related (left.settle signal).1 (right.settle signal).1 := by
  have beeps := lockstep.beeps same
  have ticked := lockstep.tickTimers same
  cases signal with
  | none | draw => exact ⟨congrArg Step.executed beeps, ticked⟩
  | wait =>
      have ticking := lockstep.ticking same
      by_cases goes : left.config.tickWhileBlocked
      · simp only [settle, ticking, goes, if_true]
        exact ⟨congrArg Step.blocked beeps, ticked⟩
      · simp only [settle, ticking, goes]
        exact ⟨rfl, same⟩

/-- The fetched word and the timers do not get in the way of a permitted instruction. -/
theorem step_lockstep (lockstep : StepLockstep permitted related) (same : related left right)
    (allowed : ∀ instruction ∈ left.instruction?, permitted instruction) :
    Attempt.Related related left.step right.step := by
  obtain ⟨first, second, fault, failed, failed', stepped⟩ |
      ⟨first, second, signal, done, done', executed⟩ :=
    step_cases_lockstep lockstep.toExecuteLockstep same allowed
  · rw [failed, failed']
    exact ⟨rfl, stepped⟩
  · obtain ⟨step, settled⟩ := settle_lockstep lockstep executed signal
    rw [done, done']
    exact ⟨congrArg Except.ok step, settled⟩

end Step

section Apply

variable {permitted : Instruction → Prop} {related : Machine → Machine → Prop}
  {left right : Machine}

theorem handleEvents_lockstep (lockstep : Lockstep permitted related) (same : related left right)
    (family : Nibble) (word : Word)
    (allowed : ∀ instruction ∈ Instruction.decode? family word, permitted instruction) :
    right.handleEvents family word = left.handleEvents family word := by
  unfold handleEvents
  cases decoded : Instruction.decode? family word with
  | none => rfl
  | some instruction =>
      simp only [lockstep.performEvents (allowed instruction decoded) same]

theorem stepEvents_lockstep (lockstep : Lockstep permitted related) (same : related left right)
    (allowed : ∀ instruction ∈ left.instruction?, permitted instruction)
    (outcome : Except Fault Step) : right.stepEvents outcome = left.stepEvents outcome := by
  have fetch := lockstep.fetch same
  have counter := lockstep.counter same
  unfold stepEvents
  rw [lockstep.loaded same, fetch]
  by_cases loaded : left.loaded
  · cases fetched : left.fetch with
    | error fault => rfl
    | ok word =>
        have events := handleEvents_lockstep lockstep same word.family word
          fun instruction decoded => allowed instruction
            ((left.instruction?_eq_some_iff instruction).mpr ⟨loaded, word, fetched, decoded⟩)
        simp only [loaded, if_true, executeEvents, events, outcomeEvents, counter]
  · simp only [loaded]
    rfl

theorem tick_lockstep (lockstep : Lockstep permitted related) (same : related left right)
    (allowed : ∀ instruction ∈ left.instruction?, permitted instruction) :
    right.tick.result = left.tick.result ∧ right.tick.forwarded = left.tick.forwarded ∧
      related left.tick.machine right.tick.machine := by
  unfold tick
  obtain ⟨first, second, fault, failed, failed', stepped⟩ |
      ⟨first, second, step, done, done', stepped⟩ :=
    (step_lockstep lockstep.toStepLockstep same allowed).cases
  · rw [failed, failed']
    exact ⟨rfl, rfl, stepped⟩
  · have taken : Reply.Related related (first.apply .takeDirty) (second.apply .takeDirty) :=
      lockstep.direct rfl stepped
    rw [done, done']
    refine ⟨rfl, ?_, taken.machine⟩
    simp only [lockstep.dirty stepped, lockstep.display stepped]

/-- An operation whose instruction is permitted tells related machines apart by nothing. -/
theorem apply_lockstep (lockstep : Lockstep permitted related) (same : related left right)
    (operation : Operation)
    (allowed : ∀ instruction ∈ left.instructionOf? operation, permitted instruction) :
    Reply.Related related (left.apply operation) (right.apply operation) := by
  cases operation with
  | step =>
      obtain ⟨result, machine⟩ := step_lockstep lockstep.toStepLockstep same allowed
      refine ⟨congrArg Answer.ofStep result, ?_, rfl, machine⟩
      exact (congrArg right.stepEvents result).trans
        (stepEvents_lockstep lockstep same allowed left.step.result)
  | tick =>
      obtain ⟨result, forwarded, machine⟩ := tick_lockstep lockstep same allowed
      refine ⟨congrArg Answer.ofStep result, ?_, forwarded, machine⟩
      exact (congrArg right.stepEvents result).trans
        (stepEvents_lockstep lockstep same allowed left.tick.result)
  | execute word =>
      obtain ⟨result, machine⟩ := execute_lockstep lockstep.toExecuteLockstep same word allowed
      exact ⟨congrArg Answer.ofSignal result,
        handleEvents_lockstep lockstep same word.family word allowed, rfl, machine⟩
  | handle family word =>
      obtain ⟨result, machine⟩ := handle_lockstep lockstep.toExecuteLockstep same family word allowed
      exact ⟨congrArg Answer.ofEffect result,
        handleEvents_lockstep lockstep same family word allowed, rfl, machine⟩
  | load | loadFile | advance | setKeypad | setKey | toggleKey | setGenerator | takeDirty | reset =>
      exact lockstep.direct rfl same

/-- Related machines keep giving related replies, as long as the first one executes permitted
instructions. -/
theorem replies_lockstep (lockstep : Lockstep permitted related) (same : related left right)
    (operations : List Operation)
    (allowed : ∀ instruction ∈ left.instructions operations, permitted instruction) :
    List.Forall₂ (Reply.Related related) (left.replies operations) (right.replies operations) := by
  -- The relation is the invariant; only the first machine is asked for its instructions.
  induction operations generalizing left right with
  | nil => exact .nil
  | cons operation rest inductionHypothesis =>
      rw [instructions, List.forall_mem_append] at allowed
      have reply := apply_lockstep lockstep same operation fun instruction executed =>
        allowed.1 instruction (Option.mem_toList.mpr executed)
      exact .cons reply (inductionHypothesis reply.machine allowed.2)

end Apply

section Load

variable {related : Machine → Machine → Prop} {left right : Machine}

/-- An image is refused by both machines or by none. -/
theorem applyLoad_related (name : String) (data : List UInt8) (same : related left right)
    (loads : ∀ rom, related (left.load rom) (right.load rom)) :
    Reply.Related related (left.applyLoad name data) (right.applyLoad name data) := by
  unfold applyLoad
  cases Rom.ofData name data with
  | ok rom => exact ⟨rfl, rfl, rfl, loads rom⟩
  | error fault => exact ⟨rfl, rfl, rfl, same⟩

theorem applyLoadFile_related (files : FileTree) (path : String)
    (unloads : related left.unload right.unload)
    (loads : ∀ rom, related (left.load rom) (right.load rom)) :
    Reply.Related related (left.applyLoadFile files path) (right.applyLoadFile files path) := by
  unfold applyLoadFile loadFile
  cases Rom.ofFile files path with
  | ok rom => exact ⟨rfl, rfl, rfl, loads rom⟩
  | error fault => exact ⟨rfl, rfl, rfl, unloads⟩

end Load

section Fetched

theorem fetched_liesAside : LiesAside keepFetched :=
  ⟨fun aside word => { aside with fetched := word }, fun _ _ => rfl⟩

theorem perform_keepFetched (machine : Machine) (word : Word) (instruction : Instruction)
    (other : instruction.isPlain = false) :
    Attempt.Related (SameBut keepFetched) (machine.perform instruction)
      ((machine.keepFetched word).perform instruction) := by
  cases instruction with
  | clear | draw | random | skipIfPressed | skipIfReleased => exact ⟨rfl, word, rfl⟩
  | awaitKey x =>
      simp only [perform, keepFetched]
      cases machine.keypad.highest? <;> exact ⟨rfl, word, rfl⟩
  | _ => cases other

theorem fetched_lockstep : Lockstep (fun _ => True) (SameBut keepFetched) where
  toStepLockstep :=
    stepLockstep_of_liesAside fetched_liesAside (fun _ _ word => ⟨word, rfl⟩)
      fun machine word instruction _ => machine.perform_keepFetched word instruction
  counter := by rintro _ _ ⟨_, rfl⟩; rfl
  dirty := by rintro _ _ ⟨_, rfl⟩; rfl
  display := by rintro _ _ ⟨_, rfl⟩; rfl
  performEvents := by rintro _ _ instruction - ⟨_, rfl⟩; cases instruction <;> rfl
  direct := by
    rintro left _ operation direct ⟨word, rfl⟩
    cases operation with
    | load name data => exact applyLoad_related name data ⟨word, rfl⟩ fun _ => ⟨0, rfl⟩
    | loadFile files path => exact applyLoadFile_related files path ⟨word, rfl⟩ fun _ => ⟨0, rfl⟩
    | reset => exact ⟨rfl, rfl, rfl, 0, rfl⟩
    | advance | setKeypad | setKey | toggleKey | setGenerator | takeDirty =>
        exact ⟨rfl, rfl, rfl, word, rfl⟩
    | step | tick | execute | handle => cases direct

end Fetched

end Machine
end ChipEight
