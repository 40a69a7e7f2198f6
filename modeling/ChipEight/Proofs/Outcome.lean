/-
This file lists the words and the states that make an instruction or a step fail, wait or draw.
-/
import ChipEight.Proofs.Decoding
import ChipEight.Proofs.Execution

namespace ChipEight.Machine

section Faults

variable (machine : Machine) (family : Nibble) (word : Word)

/-- A refused word is unsupported, and only three instructions look at the state. -/
theorem handleFault?_eq_some_iff (fault : Fault) :
    machine.handleFault? family word = some fault ↔
      fault = .word (.unsupported word) ∧ Instruction.Refused family word ∨
      fault = .stack .full ∧ family = 0x2 ∧ machine.stack.calls.length = 16 ∨
      fault = .stack .empty ∧ family = 0x0 ∧ word = 0x00EE ∧ machine.stack.calls = [] ∨
      fault = .glyph (5 * (machine.register word.x).toNat) ∧
        family = 0xF ∧ word.byte = 0x29 ∧ 16 < (machine.register word.x).toNat := by
  unfold handleFault?
  cases decoded : Instruction.decode? family word with
  | none =>
      have refused := (Instruction.decode_eq_none_iff family word).mp decoded
      grind [Instruction.Refused]
  | some instruction =>
      have encodes := (Instruction.decode_eq_some_iff family word instruction).mp decoded
      have accepted : ¬ Instruction.Refused family word := by
        rw [← Instruction.decode_eq_none_iff, decoded]
        simp
      cases instruction <;> simp only [performFault?, CallStack.capacity] <;>
        grind [Instruction.Encodes]

/-- Only a key instruction waits, and only clearing and drawing draw. -/
theorem handleSignal_eq :
    machine.handleSignal family word =
      if family = 0xF ∧ word.byte = 0x0A ∧ machine.keypad.highest? = none then .wait
      else if family = 0x0 ∧ word = 0x00E0 ∨ family = 0xD then .draw
      else .none := by
  unfold handleSignal
  cases decoded : Instruction.decode? family word with
  | none =>
      have refused := (Instruction.decode_eq_none_iff family word).mp decoded
      grind [Instruction.Refused]
  | some instruction =>
      have encodes := (Instruction.decode_eq_some_iff family word instruction).mp decoded
      cases instruction <;> simp only [performSignal] <;> grind [Instruction.Encodes]

end Faults

section Execute

/-- The outcome of a word depends on its digits, the stack, one register and the keys. -/
structure ExecuteOutcome (machine : Machine) (word : Word) : Prop where
  unsupported : (machine.execute word).result = .error (.word (.unsupported word)) ↔
    Instruction.Refused word.family word
  full : (machine.execute word).result = .error (.stack .full) ↔
    word.family = 0x2 ∧ machine.stack.calls.length = 16
  empty : (machine.execute word).result = .error (.stack .empty) ↔
    word = 0x00EE ∧ machine.stack.calls = []
  glyph (location : Nat) : (machine.execute word).result = .error (.glyph location) ↔
    word.family = 0xF ∧ word.byte = 0x29 ∧ 16 < (machine.register word.x).toNat ∧
      location = 5 * (machine.register word.x).toNat
  succeeds : (∃ signal, (machine.execute word).result = .ok signal) ↔
    ¬ Instruction.Refused word.family word ∧
    ¬ (word.family = 0x2 ∧ machine.stack.calls.length = 16) ∧
    ¬ (word = 0x00EE ∧ machine.stack.calls = []) ∧
    ¬ (word.family = 0xF ∧ word.byte = 0x29 ∧ 16 < (machine.register word.x).toNat)
  wait : (machine.execute word).result = .ok .wait ↔
    word.family = 0xF ∧ word.byte = 0x0A ∧ ∀ key : Nibble, machine.keypad.keys.get key = false
  draw : (machine.execute word).result = .ok .draw ↔ word = 0x00E0 ∨ word.family = 0xD
  none : (machine.execute word).result = .ok .none ↔
    (∃ signal, (machine.execute word).result = .ok signal) ∧
    ¬ (word.family = 0xF ∧ word.byte = 0x0A ∧
      ∀ key : Nibble, machine.keypad.keys.get key = false) ∧
    ¬ (word = 0x00E0 ∨ word.family = 0xD)

variable (machine : Machine) (word : Word)

theorem family_clear (clears : word = 0x00E0) : word.family = 0x0 := by
  rw [clears]
  rfl

theorem family_leave (leaves : word = 0x00EE) : word.family = 0x0 := by
  rw [leaves]
  rfl

theorem execute_error_iff (fault : Fault) :
    (machine.execute word).result = .error fault ↔ machine.executeFault? word = some fault := by
  rw [execute_result]
  cases machine.executeFault? word <;> simp

theorem execute_ok_iff (signal : Signal) :
    (machine.execute word).result = .ok signal ↔
      machine.executeFault? word = none ∧ machine.executeSignal word = signal := by
  rw [execute_result]
  cases machine.executeFault? word <;> simp

theorem executeFault?_eq_none_iff :
    machine.executeFault? word = none ↔
      ¬ Instruction.Refused word.family word ∧
      ¬ (word.family = 0x2 ∧ machine.stack.calls.length = 16) ∧
      ¬ (word = 0x00EE ∧ machine.stack.calls = []) ∧
      ¬ (word.family = 0xF ∧ word.byte = 0x29 ∧ 16 < (machine.register word.x).toNat) := by
  have leave := family_leave word
  rw [Option.eq_none_iff_forall_ne_some]
  simp only [executeFault?, ne_eq, handleFault?_eq_some_iff]
  grind

theorem execute_outcome : ExecuteOutcome machine word := by
  have faults := machine.handleFault?_eq_some_iff word.family word
  have clear := family_clear word
  have leave := family_leave word
  have succeeds := machine.executeFault?_eq_none_iff word
  have signals := machine.handleSignal_eq word.family word
  constructor
  case unsupported => rw [execute_error_iff, executeFault?, faults]; grind
  case full => rw [execute_error_iff, executeFault?, faults]; grind
  case empty => rw [execute_error_iff, executeFault?, faults]; grind
  case glyph => intro location; rw [execute_error_iff, executeFault?, faults]; grind
  case succeeds => simp only [execute_ok_iff, exists_and_left, exists_eq', and_true, succeeds]
  case wait =>
    rw [← Keypad.highestNone, execute_ok_iff, succeeds, executeSignal, signals]
    grind [Instruction.Refused]
  case draw =>
    have accepted : word.family = 0x0 ∨ word.family = 0xD →
        ¬ Instruction.Refused word.family word := by
      rintro (zero | draws) <;> simp [Instruction.Refused, *]
    rw [execute_ok_iff, succeeds, executeSignal, signals]
    grind
  case none =>
    rw [← Keypad.highestNone]
    simp only [execute_ok_iff, exists_and_left, exists_eq', and_true, executeSignal, signals]
    grind

end Execute

section Step

variable (machine : Machine)

/-- The word at the program counter; its high byte comes first. -/
def nextWord : Word :=
  Word.ofBytes (machine.memory.read machine.counter.toNat)
    (machine.memory.read (machine.counter.toNat + 1))

theorem fetch_eq :
    machine.fetch =
      if machine.counter.toNat + 1 < 4096 then .ok machine.nextWord
      else .error (.outside machine.counter.toNat 4096) := by
  unfold fetch Word.fetch
  by_cases inside : machine.counter.toNat + 1 < 4096
  · have first : machine.counter.toNat % 4096 = machine.counter.toNat := by omega
    have second : (machine.counter.toNat + 1) % 4096 = machine.counter.toNat + 1 := by omega
    simp [inside, nextWord, Memory.read, first, second]
  · simp [inside]

theorem fetch_ok_iff (word : Word) :
    machine.fetch = .ok word ↔ machine.counter.toNat + 1 < 4096 ∧ machine.nextWord = word := by
  rw [fetch_eq]
  by_cases inside : machine.counter.toNat + 1 < 4096
  · simp [inside]
  · simp [inside]

/-- The first word of a program stands behind the start of the program. -/
theorem nextWord_load (rom : Rom) (long : 1 < rom.data.length) :
    (machine.load rom).nextWord =
      Word.ofBytes (rom.data[0]) (rom.data[1]) := by
  have fits := rom.fits
  have short : rom.data.length ≤ 4096 := by
    simp only [Memory.programCapacity, Memory.size, Memory.programStart] at fits
    omega
  have first := Memory.readWriteAllInside machine.reset.memory Memory.programStart 0 rom.data
    short (by omega)
  have second := Memory.readWriteAllInside machine.reset.memory Memory.programStart 1 rom.data
    short long
  rw [← first, ← second]
  rfl

theorem stepFault?_eq :
    machine.stepFault? =
      if machine.loaded then
        if machine.counter.toNat + 1 < 4096 then machine.executeFault? machine.nextWord
        else some (.word (.outside machine.counter.toNat 4096))
      else some .unloaded := by
  rw [stepFault?, fetch_eq]
  by_cases inside : machine.counter.toNat + 1 < 4096
  · simp only [inside, if_true]
  · simp only [inside, if_false]

/-- The first step after loading fails only in the first word of the program. -/
theorem stepFault?_load (rom : Rom) (long : 1 < rom.data.length) :
    (machine.load rom).stepFault? =
      (machine.load rom).executeFault? (Word.ofBytes rom.data[0] rom.data[1]) := by
  have loaded : (machine.load rom).loaded = true := rfl
  have inside : (machine.load rom).counter.toNat + 1 < 4096 :=
    show (0x200 : Nat) + 1 < 4096 by decide
  rw [stepFault?_eq, if_pos loaded, if_pos inside, nextWord_load machine rom long]

theorem step_error_iff (fault : Fault) :
    machine.step.result = .error fault ↔ machine.stepFault? = some fault := by
  obtain ⟨found, word, reason, -, failed⟩ | ⟨word, _, _, _, reason, -, -, -, -, -, done⟩ :=
    machine.step_cases
  · simp [reason, failed]
  · simp [reason, done]

/-- Only a waiting instruction blocks a step. -/
theorem settle_blocked_iff (signal : Signal) :
    (∃ beep, (machine.settle signal).2 = .blocked beep) ↔ signal = .wait := by
  cases signal <;> simp only [settle]
  case wait => split <;> simp
  all_goals simp

theorem step_blocked_iff :
    (∃ beep, machine.step.result = .ok (.blocked beep)) ↔
      machine.loaded ∧ machine.counter.toNat + 1 < 4096 ∧
        (machine.execute machine.nextWord).result = .ok .wait := by
  rw [execute_ok_iff]
  obtain ⟨found, word, reason, -, failed⟩ |
      ⟨word, _, _, _, reason, loaded, fetched, -, -, -, done⟩ := machine.step_cases
  · rw [failed]
    constructor
    · rintro ⟨beep, ok⟩
      cases ok
    · rintro ⟨loaded, inside, accepted, -⟩
      rw [stepFault?_eq, if_pos loaded, if_pos inside, accepted] at reason
      cases reason
  · obtain ⟨inside, rfl⟩ := (machine.fetch_ok_iff word).mp fetched
    rw [stepFault?_eq, if_pos loaded, if_pos inside] at reason
    simp only [done, Except.ok.injEq, settle_blocked_iff, loaded, inside, reason, true_and]

/-- A step fails for want of a program, for want of a word, or in the word at the program counter;
it is blocked if that word waits. -/
structure StepOutcome (machine : Machine) : Prop where
  failed (fault : Fault) : machine.step.result = .error fault ↔
    machine.loaded = false ∧ fault = .unloaded ∨
    machine.loaded = true ∧ 4096 ≤ machine.counter.toNat + 1 ∧
      fault = .word (.outside machine.counter.toNat 4096) ∨
    machine.loaded = true ∧ machine.counter.toNat + 1 < 4096 ∧
      (machine.execute machine.nextWord).result = .error fault
  blocked : (∃ beep, machine.step.result = .ok (.blocked beep)) ↔
    machine.loaded = true ∧ machine.counter.toNat + 1 < 4096 ∧
      (machine.execute machine.nextWord).result = .ok .wait

theorem step_outcome : StepOutcome machine := by
  constructor
  case failed =>
    intro fault
    rw [step_error_iff, execute_error_iff, stepFault?_eq]
    by_cases loaded : machine.loaded
    · by_cases inside : machine.counter.toNat + 1 < 4096
      · simp only [loaded, inside, if_true, true_and, Nat.not_le.mpr inside, false_and,
          false_or, reduceCtorEq]
      · simp [loaded, inside, Nat.not_lt.mp inside, eq_comm]
    · simp [loaded, eq_comm]
  case blocked => exact step_blocked_iff machine

end Step

/-- Every outcome is determined by the word and the state. -/
theorem outcome_exact (machine : Machine) :
    (∀ word, ExecuteOutcome machine word) ∧ StepOutcome machine :=
  ⟨machine.execute_outcome, machine.step_outcome⟩

end ChipEight.Machine
