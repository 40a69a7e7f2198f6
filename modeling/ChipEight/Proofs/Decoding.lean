/-
This file inverts the decoding of words.
-/
import Mathlib.Tactic.IntervalCases
import ChipEight.Instruction

namespace ChipEight.Instruction

section Members

/-- The family reads the instruction off a word with these digits. -/
def Encodes (family : Nibble) (word : Word) : Instruction → Prop
  | .clear => family = 0x0 ∧ word = 0x00E0
  | .leave => family = 0x0 ∧ word = 0x00EE
  | .jump target =>
      (family = 0x0 ∧ word ≠ 0x00E0 ∧ word ≠ 0x00EE ∨ family = 0x1) ∧ target = word.address
  | .call target => family = 0x2 ∧ target = word.address
  | .skipIfByte x byte => family = 0x3 ∧ x = word.x ∧ byte = word.byte
  | .skipUnlessByte x byte => family = 0x4 ∧ x = word.x ∧ byte = word.byte
  | .skipIfEqual x y => family = 0x5 ∧ x = word.x ∧ y = word.y ∧ word.n = 0
  | .setByte x byte => family = 0x6 ∧ x = word.x ∧ byte = word.byte
  | .addByte x byte => family = 0x7 ∧ x = word.x ∧ byte = word.byte
  | .combine operator x y =>
      family = 0x8 ∧ x = word.x ∧ y = word.y ∧ Operator.decode? word.n = some operator
  | .skipUnlessEqual x y => family = 0x9 ∧ x = word.x ∧ y = word.y ∧ word.n = 0
  | .setIndex target => family = 0xA ∧ target = word.address
  | .jumpFrom target => family = 0xB ∧ target = word.address
  | .random x mask => family = 0xC ∧ x = word.x ∧ mask = word.byte
  | .draw x y height => family = 0xD ∧ x = word.x ∧ y = word.y ∧ height = word.n
  | .skipIfPressed x => family = 0xE ∧ x = word.x ∧ word.byte = 0x9E
  | .skipIfReleased x => family = 0xE ∧ x = word.x ∧ word.byte = 0xA1
  | .readDelay x => family = 0xF ∧ x = word.x ∧ word.byte = 0x07
  | .awaitKey x => family = 0xF ∧ x = word.x ∧ word.byte = 0x0A
  | .setDelay x => family = 0xF ∧ x = word.x ∧ word.byte = 0x15
  | .setSound x => family = 0xF ∧ x = word.x ∧ word.byte = 0x18
  | .addIndex x => family = 0xF ∧ x = word.x ∧ word.byte = 0x1E
  | .selectGlyph x => family = 0xF ∧ x = word.x ∧ word.byte = 0x29
  | .storeDigits x => family = 0xF ∧ x = word.x ∧ word.byte = 0x33
  | .storeRegisters x => family = 0xF ∧ x = word.x ∧ word.byte = 0x55
  | .loadRegisters x => family = 0xF ∧ x = word.x ∧ word.byte = 0x65

/-- A family knows only some values of the digits that select its members. -/
def Refused (family : Nibble) (word : Word) : Prop :=
  (family = 0x5 ∨ family = 0x9) ∧ word.n ≠ 0 ∨
  family = 0x8 ∧ ¬ (word.n ≤ 0x7 ∨ word.n = 0xE) ∨
  family = 0xE ∧ word.byte ∉ [0x9E, 0xA1] ∨
  family = 0xF ∧ word.byte ∉ [0x07, 0x0A, 0x15, 0x18, 0x1E, 0x29, 0x33, 0x55, 0x65]

instance (family : Nibble) (word : Word) : Decidable (Refused family word) :=
  inferInstanceAs (Decidable (_ ∨ _ ∨ _ ∨ _))

theorem operator_eq_none_iff (digit : Nibble) :
    Operator.decode? digit = none ↔ ¬ (digit ≤ 0x7 ∨ digit = 0xE) := by
  revert digit
  decide

theorem decodeKeys_eq_none_iff (x : Nibble) (byte : UInt8) :
    decodeKeys? x byte = none ↔ byte ∉ [0x9E, 0xA1] := by
  unfold decodeKeys?
  split <;> simp_all

theorem decodeOther_eq_none_iff (x : Nibble) (byte : UInt8) :
    decodeOther? x byte = none ↔
      byte ∉ [0x07, 0x0A, 0x15, 0x18, 0x1E, 0x29, 0x33, 0x55, 0x65] := by
  unfold decodeOther?
  split <;> simp_all

end Members

section Decode

variable (family : Nibble) (word : Word)

/-- A family has no instruction for a word exactly if it refuses the word. -/
theorem decode_eq_none_iff : decode? family word = none ↔ Refused family word := by
  obtain ⟨family, inside⟩ := family
  unfold Refused
  interval_cases family <;> simp [decode?, operator_eq_none_iff, decodeKeys_eq_none_iff,
    decodeOther_eq_none_iff]
  -- Only the family `0` still compares the whole word.
  grind

theorem encodes_of_decode (instruction : Instruction)
    (decoded : decode? family word = some instruction) : Encodes family word instruction := by
  unfold decode? decodeKeys? decodeOther? at decoded
  split at decoded <;> try split at decoded
  all_goals grind [Encodes, Option.map_eq_some_iff]

theorem decode_of_encodes (instruction : Instruction)
    (encodes : Encodes family word instruction) : decode? family word = some instruction := by
  cases instruction with
  | clear | leave | call | setIndex | jumpFrom =>
      obtain ⟨rfl, rfl⟩ := encodes
      rfl
  | jump target =>
      obtain ⟨⟨rfl, notClear, notLeave⟩ | rfl, rfl⟩ := encodes
      · exact (if_neg notClear).trans (if_neg notLeave)
      · rfl
  | skipIfByte | skipUnlessByte | setByte | addByte | random =>
      obtain ⟨rfl, rfl, rfl⟩ := encodes
      rfl
  | draw =>
      obtain ⟨rfl, rfl, rfl, rfl⟩ := encodes
      rfl
  | skipIfEqual | skipUnlessEqual =>
      obtain ⟨rfl, rfl, rfl, zero⟩ := encodes
      exact if_pos zero
  | combine operator x y =>
      obtain ⟨rfl, rfl, rfl, selected⟩ := encodes
      exact congrArg (Option.map fun operator => combine operator word.x word.y) selected
  | skipIfPressed | skipIfReleased =>
      obtain ⟨rfl, rfl, byte⟩ := encodes
      change decodeKeys? word.x word.byte = _
      rw [byte]
      rfl
  | _ =>
      -- All others are members of the family `F`.
      obtain ⟨rfl, rfl, byte⟩ := encodes
      change decodeOther? word.x word.byte = _
      rw [byte]
      rfl

/-- Decoding finds an instruction exactly if the word has its digits. -/
theorem decode_eq_some_iff (instruction : Instruction) :
    decode? family word = some instruction ↔ Encodes family word instruction :=
  ⟨encodes_of_decode family word instruction, decode_of_encodes family word instruction⟩

end Decode

end ChipEight.Instruction
