/-
This file says what an instruction can change, when it fails, and what it signals.
-/
import ChipEight.Machine.Step

namespace ChipEight

/-- Two machines agree on all parts that no instruction changes. -/
structure Machine.Kept (before after : Machine) : Prop where
  config : after.config = before.config
  name : after.name = before.name
  loaded : after.loaded = before.loaded
  counter : after.counter = before.counter
  fetched : after.fetched = before.fetched
  cadence : after.cadence = before.cadence
  keypad : after.keypad = before.keypad

namespace Machine

section Perform

variable (machine : Machine)

/-- A call, a return and the choice of a glyph can fail, and nothing else can. -/
def performFault? : Instruction → Option Fault
  | .leave => if machine.stack.calls = [] then some (.stack .empty) else none
  | .call _ =>
      if machine.stack.calls.length = CallStack.capacity then some (.stack .full) else none
  | .selectGlyph x =>
      if 16 < (machine.register x).toNat then some (.glyph (5 * (machine.register x).toNat))
      else none
  | _ => none

def performSignal : Instruction → Signal
  | .clear | .draw _ _ _ => .draw
  | .awaitKey _ => if machine.keypad.highest? = none then .wait else .none
  | _ => .none

def performDelay : Instruction → Timer
  | .setDelay x => ⟨machine.register x⟩
  | _ => machine.delay

def performSound : Instruction → Timer
  | .setSound x => ⟨machine.register x⟩
  | _ => machine.sound

/-- An instruction keeps most parts, and only two instructions set a timer. -/
structure Performed (machine : Machine) (instruction : Instruction) (performed : Machine) : Prop
    extends Kept machine performed where
  delay : performed.delay = machine.performDelay instruction
  sound : performed.sound = machine.performSound instruction

theorem combine_performed (operator : Operator) (x y : Nibble) :
    Performed machine (.combine operator x y) (machine.combine operator x y) := by
  simp only [combine]
  split <;> exact ⟨⟨rfl, rfl, rfl, rfl, rfl, rfl, rfl⟩, rfl, rfl⟩

theorem storeDigits_performed (x : Nibble) :
    Performed machine (.storeDigits x) (machine.storeDigits x) := by
  unfold storeDigits
  exact ⟨⟨rfl, rfl, rfl, rfl, rfl, rfl, rfl⟩, rfl, rfl⟩

theorem storeRegisters_performed (last : Nibble) :
    Performed machine (.storeRegisters last) (machine.storeRegisters last) := by
  unfold storeRegisters
  exact ⟨⟨rfl, rfl, rfl, rfl, rfl, rfl, rfl⟩, rfl, rfl⟩

theorem loadRegisters_performed (last : Nibble) :
    Performed machine (.loadRegisters last) (machine.loadRegisters last) := by
  unfold loadRegisters
  exact ⟨⟨rfl, rfl, rfl, rfl, rfl, rfl, rfl⟩, rfl, rfl⟩

/-- A failing instruction leaves the machine alone; any other one changes a part of it. -/
def PerformCases (instruction : Instruction) : Prop :=
  (∃ fault, machine.performFault? instruction = some fault ∧
    machine.perform instruction = ⟨machine, .error fault⟩) ∨
  (∃ performed move, machine.performFault? instruction = none ∧
    machine.perform instruction =
      ⟨performed, .ok { advance := move, signal := machine.performSignal instruction }⟩ ∧
    Performed machine instruction performed)

theorem leave_cases : machine.PerformCases .leave := by
  simp only [PerformCases, perform, performFault?]
  cases outcome : machine.stack.pop with
  | error fault =>
      obtain ⟨rfl, empty⟩ := (CallStack.popError _ _).mp outcome
      exact .inl ⟨_, if_pos empty, rfl⟩
  | ok popped =>
      obtain ⟨address, stack⟩ := popped
      have shape := (CallStack.popOk _ _ _).mp outcome
      have nonempty : machine.stack.calls ≠ [] := by simp [shape]
      exact .inr ⟨_, _, if_neg nonempty, rfl, ⟨⟨rfl, rfl, rfl, rfl, rfl, rfl, rfl⟩, rfl, rfl⟩⟩

theorem call_cases (target : Word) : machine.PerformCases (.call target) := by
  simp only [PerformCases, perform, performFault?]
  cases outcome : machine.stack.push machine.counter with
  | error fault =>
      obtain ⟨rfl, full⟩ := (CallStack.pushError _ _ _).mp outcome
      exact .inl ⟨_, if_pos full, rfl⟩
  | ok stack =>
      have shape := (CallStack.pushOk _ _ _).mp outcome
      have bounded := stack.bounded
      rw [shape, List.length_cons] at bounded
      have room : machine.stack.calls.length ≠ CallStack.capacity := by
        rw [CallStack.capacity]
        omega
      exact .inr ⟨_, _, if_neg room, rfl, ⟨⟨rfl, rfl, rfl, rfl, rfl, rfl, rfl⟩, rfl, rfl⟩⟩

/-- The location right behind the last glyph is still accepted. -/
theorem glyphs_past (digit : UInt8) :
    Font.glyphs.length < digit.toNat * Font.glyphSize ↔ 16 < digit.toNat := by
  rw [show Font.glyphs.length = 80 from rfl, Font.glyphSize]
  omega

theorem selectGlyph_cases (x : Nibble) : machine.PerformCases (.selectGlyph x) := by
  simp only [PerformCases, perform, performFault?]
  by_cases past : 16 < (machine.register x).toNat
  · refine .inl ⟨_, if_pos past, ?_⟩
    rw [if_pos ((glyphs_past _).mpr past), Font.location, Font.glyphSize, Nat.mul_comm,
      Nat.zero_add]
  · rw [if_neg (mt (glyphs_past _).mp past)]
    exact .inr ⟨_, _, if_neg past, rfl, ⟨⟨rfl, rfl, rfl, rfl, rfl, rfl, rfl⟩, rfl, rfl⟩⟩

theorem awaitKey_cases (x : Nibble) : machine.PerformCases (.awaitKey x) := by
  simp only [PerformCases, perform, performSignal]
  cases machine.keypad.highest? with
  | none => exact .inr ⟨_, _, rfl, rfl, ⟨⟨rfl, rfl, rfl, rfl, rfl, rfl, rfl⟩, rfl, rfl⟩⟩
  | some key => exact .inr ⟨_, _, rfl, rfl, ⟨⟨rfl, rfl, rfl, rfl, rfl, rfl, rfl⟩, rfl, rfl⟩⟩

theorem perform_cases (instruction : Instruction) : machine.PerformCases instruction := by
  cases instruction with
  | leave => exact machine.leave_cases
  | call target => exact machine.call_cases target
  | selectGlyph x => exact machine.selectGlyph_cases x
  | awaitKey x => exact machine.awaitKey_cases x
  | storeDigits x => exact .inr ⟨_, _, rfl, rfl, storeDigits_performed machine x⟩
  | storeRegisters x => exact .inr ⟨_, _, rfl, rfl, storeRegisters_performed machine x⟩
  | loadRegisters x => exact .inr ⟨_, _, rfl, rfl, loadRegisters_performed machine x⟩
  | combine operator x y => exact .inr ⟨_, _, rfl, rfl, combine_performed machine operator x y⟩
  -- The other instructions cannot fail, and they set single fields.
  | _ => exact .inr ⟨_, _, rfl, rfl, ⟨⟨rfl, rfl, rfl, rfl, rfl, rfl, rfl⟩, rfl, rfl⟩⟩

/-- A word can have no instruction, and its instruction can fail. -/
def handleFault? (family : Nibble) (word : Word) : Option Fault :=
  match Instruction.decode? family word with
  | some instruction => machine.performFault? instruction
  | none => some (.word (.unsupported word))

def handleSignal (family : Nibble) (word : Word) : Signal :=
  match Instruction.decode? family word with
  | some instruction => machine.performSignal instruction
  | none => .none

/-- A family that fails leaves the machine alone. -/
theorem handle_cases (family : Nibble) (word : Word) :
    (∃ fault, machine.handleFault? family word = some fault ∧
      machine.handle family word = ⟨machine, .error fault⟩) ∨
    (∃ instruction handled move, machine.handleFault? family word = none ∧
      Instruction.decode? family word = some instruction ∧
      machine.handle family word =
        ⟨handled, .ok { advance := move, signal := machine.handleSignal family word }⟩ ∧
      Performed machine instruction handled) := by
  unfold handle handleFault? handleSignal
  cases Instruction.decode? family word with
  | none => exact .inl ⟨_, rfl, rfl⟩
  | some instruction =>
      obtain failed | ⟨performed, move, accepted, done, kept⟩ := machine.perform_cases instruction
      · exact .inl failed
      · exact .inr ⟨instruction, performed, move, accepted, rfl, done, kept⟩

end Perform

section Execute

variable (machine : Machine)

def executeFault? (word : Word) : Option Fault :=
  machine.handleFault? word.family word

def executeSignal (word : Word) : Signal :=
  machine.handleSignal word.family word

/-- A word that fails leaves the machine alone; the program counter moves after any other one. -/
theorem execute_cases (word : Word) :
    (∃ fault, machine.executeFault? word = some fault ∧
      machine.execute word = ⟨machine, .error fault⟩) ∨
    (∃ instruction handled move, machine.executeFault? word = none ∧
      Instruction.decode? word.family word = some instruction ∧
      machine.execute word = ⟨handled.advance move, .ok (machine.executeSignal word)⟩ ∧
      Performed machine instruction handled) := by
  unfold execute executeFault? executeSignal
  obtain ⟨fault, found, failed⟩ |
      ⟨instruction, handled, move, accepted, decoded, done, performed⟩ :=
    machine.handle_cases word.family word
  · exact .inl ⟨fault, found, by rw [failed]⟩
  · exact .inr ⟨instruction, handled, move, accepted, decoded, by rw [done], performed⟩

theorem execute_result (word : Word) :
    (machine.execute word).result =
      match machine.executeFault? word with
      | some fault => .error fault
      | none => .ok (machine.executeSignal word) := by
  obtain ⟨fault, found, failed⟩ | ⟨_, handled, move, accepted, -, done, -⟩ :=
    machine.execute_cases word
  · rw [found, failed]
  · rw [accepted, done]

end Execute

section Step

/-- Two machines agree on all that a fault depends on. -/
structure SameFaults (left right : Machine) : Prop where
  loaded : right.loaded = left.loaded
  memory : right.memory = left.memory
  registers : right.registers = left.registers
  counter : right.counter = left.counter
  stack : right.stack = left.stack

theorem executeFault?_congr {left right : Machine} (same : SameFaults left right) (word : Word) :
    right.executeFault? word = left.executeFault? word := by
  have reads (x : Nibble) : right.register x = left.register x := by
    rw [register, same.registers, register]
  unfold executeFault? handleFault?
  cases Instruction.decode? word.family word with
  | none => rfl
  | some instruction => cases instruction <;> simp only [performFault?, same.stack, reads]

theorem executeSignal_congr (left right : Machine) (same : right.keypad = left.keypad)
    (word : Word) : right.executeSignal word = left.executeSignal word := by
  unfold executeSignal handleSignal
  cases Instruction.decode? word.family word with
  | none => rfl
  | some instruction => cases instruction <;> simp only [performSignal, same]

variable (machine : Machine)

/-- A step fails for the first of its reasons. -/
def stepFault? : Option Fault :=
  if machine.loaded then
    match machine.fetch with
    | .error fault => some (.word fault)
    | .ok word => machine.executeFault? word
  else
    some .unloaded

theorem stepFault?_congr {left right : Machine} (same : SameFaults left right) :
    right.stepFault? = left.stepFault? := by
  simp only [stepFault?, fetch, executeFault?_congr same, same.loaded, same.memory, same.counter]

theorem keepFetched_sameFaults (word : Word) : SameFaults machine (machine.keepFetched word) :=
  ⟨rfl, rfl, rfl, rfl, rfl⟩

/-- The machine after the instruction of a step, before the timers follow. -/
def instructed : Machine :=
  if machine.loaded then
    match machine.fetch with
    | .error _ => machine
    | .ok word => ((machine.keepFetched word).execute word).machine
  else
    machine

/-- A failing step changes at most the fetched word; after any other step the timers follow the
instruction. -/
theorem step_cases :
    (∃ fault word, machine.stepFault? = some fault ∧
      machine.instructed = machine.keepFetched word ∧
      machine.step = ⟨machine.keepFetched word, .error fault⟩) ∨
    (∃ word instruction handled move, machine.stepFault? = none ∧ machine.loaded ∧
      machine.fetch = .ok word ∧ Instruction.decode? word.family word = some instruction ∧
      Performed (machine.keepFetched word) instruction handled ∧
      machine.instructed = handled.advance move ∧
      machine.step =
        ⟨(machine.instructed.settle (machine.executeSignal word)).1,
          .ok (machine.instructed.settle (machine.executeSignal word)).2⟩) := by
  by_cases loaded : machine.loaded
  · cases fetched : machine.fetch with
    | error fault =>
        refine .inl ⟨.word fault, machine.fetched, ?_, ?_, ?_⟩
        · simp only [stepFault?, loaded, fetched, if_true]
        · simp only [instructed, loaded, fetched, if_true]
          rfl
        · simp only [step, loaded, fetched, if_true]
          rfl
    | ok word =>
        have faults := executeFault?_congr (machine.keepFetched_sameFaults word) word
        have signals := executeSignal_congr machine (machine.keepFetched word) rfl word
        simp only [stepFault?, step, instructed, executeFetched, loaded, fetched, if_true]
        obtain ⟨fault, found, failed⟩ |
            ⟨instruction, handled, move, accepted, decoded, done, performed⟩ :=
          (machine.keepFetched word).execute_cases word
        · exact .inl ⟨fault, word, faults ▸ found, by rw [failed], by rw [failed]⟩
        · rw [faults] at accepted
          rw [signals] at done
          exact .inr ⟨word, instruction, handled, move, accepted, trivial, rfl, decoded, performed,
            by rw [done], by rw [done]⟩
  · refine .inl ⟨.unloaded, machine.fetched, ?_, ?_, ?_⟩
    · simp only [stepFault?, loaded]
      rfl
    · simp only [instructed, loaded]
      rfl
    · simp only [step, loaded]
      rfl

end Step

end Machine
end ChipEight
