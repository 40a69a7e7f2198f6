/-
This file shows that a history takes the random bytes in the order in which the generator yields them.
-/
import Mathlib.Logic.Function.Iterate
import ChipEight.Proofs.Carried

namespace ChipEight

namespace Generator

section Stream

/-- The generator as it is after so many bytes. -/
def skip (generator : Generator) (count : Nat) : Generator := next^[count] generator

/-- A generator is a stream of bytes. -/
def stream (generator : Generator) (k : Nat) : UInt8 := (generator.skip k).byte

variable (generator : Generator)

theorem skip_succ (count : Nat) : generator.skip (count + 1) = generator.next.skip count :=
  Function.iterate_succ_apply next count generator

theorem skip_skip (first second : Nat) :
    (generator.skip first).skip second = generator.skip (first + second) := by
  rw [skip, skip, skip, Nat.add_comm, Function.iterate_add_apply]

theorem skip_tape (bytes : Nat → UInt8) (position count : Nat) :
    (tape bytes position).skip count = .tape bytes (position + count) := by
  induction count generalizing position with
  | zero => rfl
  | succ count inductionHypothesis =>
      rw [skip_succ, next, inductionHypothesis, Nat.add_assoc, Nat.add_comm 1]

theorem stream_tape (bytes : Nat → UInt8) (position k : Nat) :
    (tape bytes position).stream k = bytes (position + k) := by
  rw [stream, skip_tape, byte]

theorem skip_arithmetic (value step : UInt64) (count : Nat) :
    (arithmetic value step).skip count = .arithmetic (value + UInt64.ofNat count * step) step := by
  induction count generalizing value with
  | zero => simp [skip]
  | succ count inductionHypothesis =>
      have sum : value + step + UInt64.ofNat count * step =
          value + UInt64.ofNat (count + 1) * step := by
        rw [UInt64.ofNat_add, UInt64.add_mul, UInt64.add_assoc, UInt64.add_comm step]
        simp
      rw [skip_succ, next, inductionHypothesis, sum]

/-- The bytes of an arithmetic generator have a closed form. -/
theorem stream_arithmetic (value step : UInt64) (k : Nat) :
    (arithmetic value step).stream k =
      UInt8.ofNat ((value.toNat + k * step.toNat) % 2 ^ 64) := by
  rw [stream, skip_arithmetic, byte, ← UInt8.toNat_inj]
  simp [Nat.add_mod, Nat.mul_mod]

end Stream

end Generator

namespace Machine

section Family

variable (machine : Machine)

/-- The family `C` takes a byte for a register, and all others leave the generator alone. -/
structure Rolled (family : Nibble) (word : Word) (before after : Machine) : Prop where
  generator : after.generator =
    if family = 0xC then before.generator.next else before.generator
  register : family = 0xC → after.register word.x = word.byte &&& before.generator.byte

theorem perform_generator (instruction : Instruction) :
    (machine.perform instruction).machine.generator = machine.performGenerator instruction := by
  obtain ⟨fault, refused, failed⟩ | ⟨performed, move, -, performs, -⟩ :=
    machine.perform_cases instruction
  · rw [failed]
    cases instruction with
    | random => cases refused
    | _ => rfl
  · rw [performs]
    exact (perform_stored performs).generator

theorem handle_rolled (family : Nibble) (word : Word) :
    Rolled family word machine (machine.handle family word).machine := by
  by_cases rolls : family = 0xC
  · subst rolls
    refine ⟨rfl, fun _ => ?_⟩
    exact (machine.registerSetRegister word.x word.x _).trans (if_pos rfl)
  · refine ⟨?_, fun same => absurd same rolls⟩
    rw [if_neg rolls, handle]
    cases decoded : Instruction.decode? family word with
    | none => rfl
    | some instruction =>
        have encodes := (Instruction.decode_eq_some_iff _ _ _).mp decoded
        rw [perform_generator]
        cases instruction with
        | random => exact absurd encodes.1 rolls
        | _ => rfl

end Family

end Machine

/-- Only the change of the generator itself interrupts its stream. -/
def Operation.setsGenerator : Operation → Bool
  | .setGenerator _ => true
  | _ => false

namespace Machine

section Run

variable (machine : Machine)

/-- The number of executed words of family `C`. -/
def rolls (operations : List Operation) : Nat :=
  (machine.words operations).countP fun executed => executed.1 == 0xC

theorem rolls_cons (operation : Operation) (rest : List Operation) :
    machine.rolls (operation :: rest) =
      machine.rolls [operation] + (machine.apply operation).machine.rolls rest := by
  simp only [rolls, words, List.countP_append, List.append_nil]

theorem apply_rolled {operation : Operation} {family : Nibble} {word : Word}
    (executed : machine.wordOf? operation = some (family, word)) :
    Rolled family word machine (machine.apply operation).machine := by
  have carried := machine.apply_carried executed
  obtain ⟨generator, register⟩ := machine.handle_rolled family word
  rw [carried.shape]
  exact ⟨generator, register⟩

/-- A load and a reset keep the generator too. -/
theorem apply_generator (operation : Operation) (kept : operation.setsGenerator = false) :
    (machine.apply operation).machine.generator =
      machine.generator.skip (machine.rolls [operation]) := by
  cases executed : machine.wordOf? operation with
  | some pair =>
      obtain ⟨family, word⟩ := pair
      rw [(machine.apply_rolled executed).generator, rolls, words, executed]
      by_cases rolls : family = 0xC
      · rw [if_pos rolls, rolls]
        rfl
      · rw [if_neg rolls]
        simp [words, rolls, Generator.skip]
  | none =>
      have rolls : machine.rolls [operation] = 0 := by
        rw [rolls, words, executed]
        rfl
      rw [rolls]
      cases operation with
      | step => exact congrArg Machine.generator (machine.apply_wordless rfl executed)
      | tick => exact congrArg Machine.generator (machine.apply_wordless rfl executed)
      | execute | handle => cases executed
      | setGenerator => cases kept
      | load name data =>
          simp only [apply, applyLoad]
          cases Rom.ofData name data <;> rfl
      | loadFile files path =>
          simp only [apply, applyLoadFile, loadFile]
          cases Rom.ofFile files path <;> rfl
      | advance | setKeypad | setKey | toggleKey | takeDirty | reset => rfl

theorem after_generator (operations : List Operation)
    (kept : ∀ operation ∈ operations, operation.setsGenerator = false) :
    (machine.after operations).generator = machine.generator.skip (machine.rolls operations) := by
  induction operations generalizing machine with
  | nil => rfl
  | cons operation rest inductionHypothesis =>
      rw [List.forall_mem_cons] at kept
      rw [after_cons, inductionHypothesis _ kept.2, machine.apply_generator operation kept.1,
        Generator.skip_skip, ← rolls_cons]

/-- Each executed word of family `C` takes the next byte of the stream, and nothing else takes one. -/
structure Streamed (start : Machine) (operations : List Operation) : Prop where
  advanced : (start.after operations).generator =
    start.generator.skip (start.rolls operations)
  taken (first : List Operation) (operation : Operation) (rest : List Operation) (word : Word) :
    operations = first ++ operation :: rest →
    (start.after first).wordOf? operation = some (0xC, word) →
      (start.after (first ++ [operation])).register word.x =
        word.byte &&& start.generator.stream (start.rolls first)
  tape (bytes : Nat → UInt8) (position : Nat) : start.generator = .tape bytes position → ∀ k,
    start.generator.skip k = .tape bytes (position + k) ∧
      start.generator.stream k = bytes (position + k)
  arithmetic (value step : UInt64) : start.generator = .arithmetic value step → ∀ k,
    start.generator.stream k = UInt8.ofNat ((value.toNat + k * step.toNat) % 2 ^ 64)

/-- Failures, waits, loads and resets neither take nor return a byte, and a mask decides only what is
stored of it. -/
theorem bytes_streamed (machine : Machine) (operations : List Operation)
    (kept : ∀ operation ∈ operations, operation.setsGenerator = false) :
    Streamed machine operations where
  advanced := machine.after_generator operations kept
  taken first operation rest word shape executed := by
    subst shape
    have before := machine.after_generator first fun other member =>
      kept other (List.mem_append_left _ member)
    rw [after_append, after_cons, after_nil, (apply_rolled _ executed).register rfl, before]
    rfl
  tape bytes position shape k := by
    rw [shape]
    exact ⟨Generator.skip_tape bytes position k, Generator.stream_tape bytes position k⟩
  arithmetic value step shape k := by
    rw [shape]
    exact Generator.stream_arithmetic value step k

/-- A byte is taken for an empty mask, and the third byte comes behind a failure and a reset. -/
theorem bytes_streamed_across :
    let start := (initial {} (.arithmetic 0xF0 0x23)).load
      ⟨"", [0xC3, 0x00, 0xFF, 0xFF], by decide, by decide⟩
    let first := [Operation.step, .step, .execute 0xC0FF, .reset, .tick]
    let operations := first ++ [.handle 0xC 0x07FE]
    Streamed start operations ∧ (start.after operations).register 0x7 = 0xFE &&& 0x36 ∧
      (start.after operations).generator = start.generator.skip 3 := by
  intro start first operations
  have streamed := bytes_streamed start operations (by decide)
  have earlier : start.rolls first = 2 := by decide +kernel
  have all : start.rolls operations = 3 := by decide +kernel
  have byte := streamed.taken first (.handle 0xC 0x07FE) [] 0x07FE rfl rfl
  have closed := streamed.arithmetic 0xF0 0x23 rfl 2
  rw [earlier, closed] at byte
  refine ⟨streamed, byte, ?_⟩
  rw [streamed.advanced, all]

end Run

end Machine
end ChipEight
