/-
This file shows what the operators compute over the integers, whatever registers they combine.
-/
import ChipEight.Proofs.Bare.Families
import ChipEight.Proofs.Frame

namespace ChipEight

namespace Operator

section Numbers

/-- The fourth digit selects a number below 256. -/
def outcome (digit : Nibble) (left right : Nat) : Nat :=
  match digit.val with
  | 0x0 => right
  | 0x1 => left ||| right
  | 0x2 => left &&& right
  | 0x3 => left ^^^ right
  | 0x4 => (left + right) % 256
  | 0x5 => (left + 256 - right) % 256
  | 0x6 => left / 2
  | 0x7 => (right + 256 - left) % 256
  | _ => 2 * left % 256

/-- A sum raises the flag if it needs a ninth bit, a difference if nothing is borrowed, and a shift
if the bit that it loses is set. -/
def raises (digit : Nibble) (left right : Nat) : Bool :=
  match digit.val with
  | 0x4 => 256 ≤ left + right
  | 0x5 => right ≤ left
  | 0x6 => left % 2 = 1
  | 0x7 => left ≤ right
  | 0xE => 128 ≤ left
  | _ => false

/-- These digits write the flag, and the shifts do so if the settings ask for it. -/
def WritesFlag (shiftSetsFlag : Bool) (digit : Nibble) : Prop :=
  digit ∈ [0x4, 0x5, 0x7] ∨ digit ∈ [0x6, 0xE] ∧ shiftSetsFlag = true

instance (shiftSetsFlag : Bool) (digit : Nibble) : Decidable (WritesFlag shiftSetsFlag digit) :=
  inferInstanceAs (Decidable (_ ∨ _))

def digit : Operator → Nibble
  | .copy => 0x0
  | .or => 0x1
  | .and => 0x2
  | .xor => 0x3
  | .add => 0x4
  | .subtract => 0x5
  | .shiftRight => 0x6
  | .subtractFrom => 0x7
  | .shiftLeft => 0xE

theorem decode?_eq_some_iff (selected : Nibble) (operator : Operator) :
    decode? selected = some operator ↔ selected = operator.digit := by
  revert selected
  cases operator <;> decide

theorem result_toNat (operator : Operator) (left right : UInt8) :
    (operator.result left right).toNat = outcome operator.digit left.toNat right.toNat := by
  have small := right.toNat_lt
  cases operator with
  | copy => rfl
  | or => exact UInt8.toNat_or left right
  | and => exact UInt8.toNat_and left right
  | xor => exact UInt8.toNat_xor left right
  | add => exact UInt8.toNat_add left right
  | subtract =>
      change (left - right).toNat = (left.toNat + 256 - right.toNat) % 256
      rw [UInt8.toNat_sub]
      omega
  | subtractFrom =>
      have small := left.toNat_lt
      change (right - left).toNat = (right.toNat + 256 - left.toNat) % 256
      rw [UInt8.toNat_sub]
      omega
  | shiftRight =>
      change (left >>> 1).toNat = left.toNat / 2
      simp [UInt8.toNat_shiftRight, Nat.shiftRight_eq_div_pow]
  | shiftLeft =>
      change (left <<< 1).toNat = 2 * left.toNat % 256
      simp [UInt8.toNat_shiftLeft, Nat.shiftLeft_eq, Nat.mul_comm]

/-- The lowest bit tells whether a byte is odd. -/
theorem and_one_eq_bit (value : UInt8) : value &&& 1 = bit (value.toNat % 2 = 1) := by
  rw [← UInt8.toNat_inj, UInt8.toNat_and, bit]
  split <;> simp_all [Nat.and_one_is_mod]

/-- The highest bit tells whether a byte has reached the upper half. -/
theorem shiftRight_seven_eq_bit (value : UInt8) : value >>> 7 = bit (128 ≤ value.toNat) := by
  have small := value.toNat_lt
  have high : (value >>> 7).toNat = value.toNat / 128 := by
    simp [UInt8.toNat_shiftRight, Nat.shiftRight_eq_div_pow]
  rw [← UInt8.toNat_inj, high, bit]
  split
  · simp_all
    omega
  · simp_all

theorem flag?_eq (shiftSetsFlag : Bool) (operator : Operator) (left right : UInt8) :
    operator.flag? shiftSetsFlag left right =
      if WritesFlag shiftSetsFlag operator.digit then
        some (bit (raises operator.digit left.toNat right.toNat))
      else none := by
  cases operator with
  | copy | or | and | xor => rfl
  | add | subtract | subtractFrom => rfl
  | shiftRight =>
      rw [flag?, and_one_eq_bit]
      cases shiftSetsFlag <;> rfl
  | shiftLeft =>
      rw [flag?, shiftRight_seven_eq_bit]
      cases shiftSetsFlag <;> rfl

theorem bit_toNat (condition : Bool) : (bit condition).toNat = condition.toNat := by
  cases condition <;> rfl

section Laws

variable (left right : Nat) (leftSmall : left < 256) (rightSmall : right < 256)
include leftSmall

include rightSmall in
/-- The flag of a sum is its ninth bit. -/
theorem sum_law : outcome 0x4 left right + 256 * (raises 0x4 left right).toNat = left + right := by
  change (left + right) % 256 + 256 * (decide (256 ≤ left + right)).toNat = left + right
  by_cases carry : 256 ≤ left + right
  · simp only [carry, decide_true, Bool.toNat_true]
    omega
  · simp only [carry, decide_false, Bool.toNat_false]
    omega

include rightSmall in
/-- A difference lacks 256 exactly if its flag is unset. -/
theorem difference_law :
    (outcome 0x5 left right : Int) = left - right + 256 * (1 - (raises 0x5 left right).toNat) := by
  change (((left + 256 - right) % 256 : Nat) : Int) =
    left - right + 256 * (1 - (decide (right ≤ left)).toNat)
  by_cases covered : right ≤ left
  · simp only [covered, decide_true, Bool.toNat_true]
    omega
  · simp only [covered, decide_false, Bool.toNat_false]
    omega

omit leftSmall in
/-- The flag of a half is the remainder. -/
theorem half_law : 2 * outcome 0x6 left right + (raises 0x6 left right).toNat = left := by
  change 2 * (left / 2) + (decide (left % 2 = 1)).toNat = left
  by_cases odd : left % 2 = 1
  · simp only [odd, decide_true, Bool.toNat_true]
    omega
  · simp only [odd, decide_false, Bool.toNat_false]
    omega

/-- The flag of a double is its ninth bit. -/
theorem double_law : outcome 0xE left right + 256 * (raises 0xE left right).toNat = 2 * left := by
  change 2 * left % 256 + 256 * (decide (128 ≤ left)).toNat = 2 * left
  by_cases high : 128 ≤ left
  · simp only [high, decide_true, Bool.toNat_true]
    omega
  · simp only [high, decide_false, Bool.toNat_false]
    omega

end Laws

end Numbers

end Operator

namespace Machine

section Equations

/-- The number in a register. -/
def value (machine : Machine) (k : Nibble) : Int :=
  (machine.register k).toNat

/-- The flag is what the result has no room for. -/
structure Balanced (before : Machine) (word : Word) (after : Machine) : Prop where
  sum : word.n = 0x4 →
    after.value word.x + 256 * after.value flagRegister =
      before.value word.x + before.value word.y
  difference : word.n = 0x5 →
    after.value word.x =
      before.value word.x - before.value word.y + 256 * (1 - after.value flagRegister)
  reverse : word.n = 0x7 →
    after.value word.x =
      before.value word.y - before.value word.x + 256 * (1 - after.value flagRegister)
  half : word.n = 0x6 → before.config.shiftSetsFlag = true →
    2 * after.value word.x + after.value flagRegister = before.value word.x
  double : word.n = 0xE → before.config.shiftSetsFlag = true →
    after.value word.x + 256 * after.value flagRegister = 2 * before.value word.x

/-- What a word of family `8` makes of the registers as they were before it. A flag wins over a
result in the flag register. -/
structure Combined (before : Machine) (word : Word) (after : Machine) : Prop where
  result : word.x ≠ flagRegister ∨ ¬ Operator.WritesFlag before.config.shiftSetsFlag word.n →
    (after.register word.x).toNat = Operator.outcome word.n
      (before.register word.x).toNat (before.register word.y).toNat
  flag : Operator.WritesFlag before.config.shiftSetsFlag word.n →
    after.register flagRegister = if Operator.raises word.n
      (before.register word.x).toNat (before.register word.y).toNat then 1 else 0
  unflagged : ¬ Operator.WritesFlag before.config.shiftSetsFlag word.n →
    word.x ≠ flagRegister → after.register flagRegister = before.register flagRegister
  kept (k : Nibble) : k ≠ word.x → k ≠ flagRegister → after.register k = before.register k
  balanced : word.x ≠ flagRegister → Balanced before word after
  others : after = { before with registers := after.registers }

variable (machine : Machine) {word : Word} {operator : Operator}

/-- The flag register ends with the flag, and the other registers with the result or as before. -/
theorem register_combine_eq (selected : word.n = operator.digit) (k : Nibble) :
    (machine.combine operator word.x word.y).register k =
      if Operator.WritesFlag machine.config.shiftSetsFlag word.n ∧ k = flagRegister then
        Operator.bit (Operator.raises word.n (machine.register word.x).toNat
          (machine.register word.y).toNat)
      else if k = word.x then operator.result (machine.register word.x) (machine.register word.y)
      else machine.register k := by
  rw [register_combine, Operator.flag?_eq, ← selected]
  by_cases writes : Operator.WritesFlag machine.config.shiftSetsFlag word.n
  · simp only [writes, if_true, true_and, registerSetRegister, eq_comm]
  · simp only [writes, if_false, false_and, registerSetRegister, eq_comm]

/-- The equations are those of the digit. -/
theorem Balanced.of_outcome {before after : Machine}
    (result : (after.register word.x).toNat = Operator.outcome word.n
      (before.register word.x).toNat (before.register word.y).toNat)
    (flag : Operator.WritesFlag before.config.shiftSetsFlag word.n →
      after.register flagRegister = Operator.bit (Operator.raises word.n
        (before.register word.x).toNat (before.register word.y).toNat)) :
    Balanced before word after := by
  have left := (before.register word.x).toNat_lt
  have right := (before.register word.y).toNat_lt
  have flag (writes : Operator.WritesFlag before.config.shiftSetsFlag word.n) :
      (after.register flagRegister).toNat = _ :=
    (congrArg UInt8.toNat (flag writes)).trans (Operator.bit_toNat _)
  simp only [Operator.WritesFlag] at flag
  constructor
  case sum =>
    intro digit
    rw [digit] at result flag
    simp only [value, result, flag (.inl (by decide))]
    exact_mod_cast Operator.sum_law _ _ left right
  case difference =>
    intro digit
    rw [digit] at result flag
    simp only [value, result, flag (.inl (by decide))]
    exact Operator.difference_law _ _ left right
  case reverse =>
    intro digit
    rw [digit] at result flag
    simp only [value, result, flag (.inl (by decide))]
    exact Operator.difference_law _ _ right left
  case half =>
    intro digit shifts
    rw [digit] at result flag
    simp only [value, result, flag (.inr ⟨by decide, shifts⟩)]
    exact_mod_cast Operator.half_law _ (before.register word.y).toNat
  case double =>
    intro digit shifts
    rw [digit] at result flag
    simp only [value, result, flag (.inr ⟨by decide, shifts⟩)]
    exact_mod_cast Operator.double_law _ _ left

theorem combine_combined (selected : word.n = operator.digit) :
    Combined machine word (machine.combine operator word.x word.y) := by
  have registers := machine.register_combine_eq selected
  have result (unflagged : word.x ≠ flagRegister ∨
      ¬ Operator.WritesFlag machine.config.shiftSetsFlag word.n) :
      ((machine.combine operator word.x word.y).register word.x).toNat = Operator.outcome word.n
        (machine.register word.x).toNat (machine.register word.y).toNat := by
    rw [registers, if_neg (by tauto), if_pos rfl, Operator.result_toNat, selected]
  have flag (writes : Operator.WritesFlag machine.config.shiftSetsFlag word.n) :=
    (registers flagRegister).trans (if_pos ⟨writes, rfl⟩)
  refine ⟨result, flag, ?unflagged, ?kept, ?balanced, ?others⟩
  case unflagged =>
    intro unset apart
    rw [registers, if_neg (by tauto), if_neg apart.symm]
  case kept =>
    intro k other apart
    rw [registers, if_neg (by tauto), if_neg other]
  case balanced =>
    intro apart
    exact .of_outcome (result (.inl apart)) flag
  case others =>
    simp only [combine]
    split <;> rfl

end Equations

section Words

/-- The word combines its registers whether it is handled, executed or executed in place. A sum is
taken back by the difference of the same registers, unless one of them is the flag register. -/
structure Combines (machine : Machine) (word : Word) (after : Machine) : Prop where
  handled : machine.handle 0x8 word = ⟨after, .ok {}⟩
  executed : word.family = 0x8 → machine.execute word = ⟨after.advance .next, .ok .none⟩
  inPlace : Bare.combine word machine.bare = .ok {} after.bare
  combined : Combined machine word after
  undone : word.n = 0x4 → word.x ≠ word.y → word.x ≠ flagRegister → word.y ≠ flagRegister →
    ∀ (next : Machine) (undo : Word), next.registers = after.registers →
      undo.family = 0x8 → undo.x = word.x → undo.y = word.y → undo.n = 0x5 →
      (next.execute undo).machine.register word.x = machine.register word.x

variable {machine : Machine} {word : Word} {operator : Operator}

theorem handle_combine (selected : word.n = operator.digit) :
    machine.handle 0x8 word = ⟨machine.combine operator word.x word.y, .ok {}⟩ := by
  have found := (Operator.decode?_eq_some_iff word.n operator).mpr selected
  have decoded : Instruction.decode? 0x8 word = some (.combine operator word.x word.y) :=
    Instruction.decode_of_encodes _ _ _ ⟨rfl, rfl, rfl, found⟩
  rw [handle, decoded]
  rfl

theorem execute_combine (family : word.family = 0x8) (selected : word.n = operator.digit) :
    machine.execute word = ⟨(machine.combine operator word.x word.y).advance .next, .ok .none⟩ := by
  rw [execute, family, handle_combine selected]

/-- The difference finds the sum and the old operand. -/
theorem subtract_undoes {after : Machine} (digit : word.n = 0x4)
    (added : Combined machine word after)
    (distinct : word.x ≠ word.y) (x : word.x ≠ flagRegister) (y : word.y ≠ flagRegister)
    {next : Machine} {undo : Word} (same : next.registers = after.registers)
    (family : undo.family = 0x8) (sameX : undo.x = word.x) (sameY : undo.y = word.y)
    (subtracts : undo.n = 0x5) :
    (next.execute undo).machine.register word.x = machine.register word.x := by
  have reads (k : Nibble) : next.register k = after.register k := by rw [register, same, register]
  have sum := added.result (.inl x)
  have operand := added.kept word.y distinct.symm y
  have left := (machine.register word.x).toNat_lt
  have right := (machine.register word.y).toNat_lt
  have selected : undo.n = Operator.subtract.digit := subtracts
  have difference := (next.combine_combined selected).result (.inl (sameX ▸ x))
  rw [sameX, sameY, reads, reads, operand, sum, digit, subtracts] at difference
  rw [execute_combine family selected, sameX, sameY, ← UInt8.toNat_inj]
  refine difference.trans ?_
  change ((((machine.register word.x).toNat + (machine.register word.y).toNat) % 256 + 256) -
    (machine.register word.y).toNat) % 256 = (machine.register word.x).toNat
  omega

/-- Every operator computes with the registers as they were, whichever of them it names. -/
theorem operators_combined (machine : Machine) (word : Word)
    (valid : word.n ≤ 0x7 ∨ word.n = 0xE) :
    Combines machine word (machine.handle 0x8 word).machine := by
  obtain ⟨operator, decoded⟩ : ∃ operator, Operator.decode? word.n = some operator := by
    rw [← Option.ne_none_iff_exists', ne_eq, Instruction.operator_eq_none_iff, not_not]
    exact valid
  have selected := (Operator.decode?_eq_some_iff _ _).mp decoded
  have combined : Combined machine word (machine.combine operator word.x word.y) :=
    machine.combine_combined selected
  rw [handle_combine selected]
  refine ⟨handle_combine selected, fun family => execute_combine family selected, ?_, combined, ?_⟩
  · rw [Bare.combine_bare, handle_combine selected]
    rfl
  · intro digit distinct x y next undo same family sameX sameY subtracts
    exact subtract_undoes digit combined distinct x y same family sameX sameY subtracts

/-- A carry wins over the sum in the flag register, and elsewhere the sum is taken back. -/
theorem operators_combined_carry :
    let machine := ((initial {} (.arithmetic 0 1)).setRegister 1 200).setRegister 15 100
    let sum := (machine.handle 0x8 0x81F4).machine
    let flagged := (machine.handle 0x8 0x8F14).machine
    let doubled := (machine.handle 0x8 0x8114).machine
    ((0x8F14 : Word).n ≤ 0x7 ∨ (0x8F14 : Word).n = 0xE) ∧
      Combines machine 0x8F14 flagged ∧ flagged.register 15 = 1 ∧
      sum.value 1 + 256 * sum.value 15 = 300 ∧
      (((machine.setRegister 2 99).handle 0x8 0x8124).machine.execute 0x8125).machine.register 1 =
        200 ∧
      doubled.value 1 + 256 * doubled.value 15 = 400 := by
  intro machine sum flagged doubled
  have law := operators_combined machine 0x8F14 (.inl (by decide))
  have summed := (operators_combined machine 0x81F4 (.inl (by decide))).combined
  have twice := (operators_combined machine 0x8114 (.inl (by decide))).combined
  have taken := operators_combined (machine.setRegister 2 99) 0x8124 (.inl (by decide))
  refine ⟨.inl (by decide), law, law.combined.flag (by decide),
    (summed.balanced (by decide)).sum (by decide), ?_, (twice.balanced (by decide)).sum (by decide)⟩
  exact taken.undone (by decide) (by decide) (by decide) (by decide) _ 0x8125 rfl
    (by decide) (by decide) (by decide) (by decide)

end Words

end Machine

end ChipEight
