/-
This file shows that the checked accesses of a bare machine hit the parts of a machine.
-/
import Mathlib.Tactic.IntervalCases
import ChipEight.Bare.Family

namespace ChipEight

/-- The rows of a display are shown from the top down. -/
def Display.frame (display : Display) : Bare.Frame :=
  Array.ofFn fun y : Fin 32 => Array.ofFn fun x : Fin 64 => display.pixel x y

/-- The bare machine forgets why the sizes are right. -/
def Machine.bare (machine : Machine) : Bare where
  config := machine.config
  name := machine.name
  loaded := machine.loaded
  memory := machine.memory.cells.toArray
  registers := machine.registers.toArray
  index := machine.index
  counter := machine.counter
  fetched := machine.fetched
  stack := machine.stack.calls.reverse.toArray
  delay := machine.delay
  sound := machine.sound
  threshold := machine.cadence.threshold
  cycle := machine.cadence.cycle
  display := machine.display.frame
  dirty := machine.dirty
  keypad := machine.keypad
  generator := machine.generator

/-- An attempt never ends with a panic. -/
def Attempt.bare {A : Type} (attempt : Attempt A) : EStateM.Result Bare.Stop Bare A :=
  match attempt.result with
  | .ok value => .ok value attempt.machine.bare
  | .error fault => .error (.fault fault) attempt.machine.bare

namespace Bare

section Digits

theorem toNat_and_low (word mask : Word) (bits : Nat) (shape : mask.toNat = 2 ^ bits - 1) :
    (word &&& mask).toNat = word.toNat % 2 ^ bits := by
  rw [UInt16.toNat_and, shape, Nat.and_two_pow_sub_one_eq_mod]

theorem family_eq (word : Word) : family word = word.family.val := by
  have small := word.toNat_lt
  have mask : (61440 : Nat) >>> 12 = 2 ^ 4 - 1 := rfl
  simp only [family, UInt16.toNat_shiftRight, UInt16.toNat_and, UInt16.toNat_ofNat,
    Nat.reduceMod, Nat.reducePow, Nat.shiftRight_and_distrib, Word.family]
  rw [mask, Nat.and_two_pow_sub_one_eq_mod, Nat.shiftRight_eq_div_pow]
  omega

theorem x_eq (word : Word) : x word = word.x.val := by
  have outer : (65280 : Nat) >>> 8 = 2 ^ 8 - 1 := rfl
  have inner : (4095 : Nat) >>> 8 = 2 ^ 4 - 1 := rfl
  simp only [x, UInt16.toNat_shiftRight, UInt16.toNat_and, UInt16.toNat_ofNat,
    Nat.reduceMod, Nat.reducePow, Nat.shiftRight_and_distrib, Word.x]
  rw [outer, inner, Nat.and_two_pow_sub_one_eq_mod, Nat.and_two_pow_sub_one_eq_mod,
    Nat.shiftRight_eq_div_pow]
  omega

theorem y_eq (word : Word) : y word = word.y.val := by
  have mask : (240 : Nat) >>> 4 = 2 ^ 4 - 1 := rfl
  simp only [y, UInt16.toNat_shiftRight, UInt16.toNat_and, UInt16.toNat_xor, UInt16.toNat_ofNat,
    Nat.reduceMod, Nat.reducePow, Nat.reduceXor, Nat.shiftRight_and_distrib, Word.y]
  rw [mask, Nat.and_two_pow_sub_one_eq_mod, Nat.shiftRight_eq_div_pow]

theorem n_eq (word : Word) : n word = word.n.val :=
  toNat_and_low word 0x000F 4 rfl

theorem byte_eq (word : Word) : byte word = word.byte := by
  apply UInt8.toNat_inj.mp
  rw [byte, UInt16.toNat_toUInt8, toNat_and_low word 0x00FF 8 rfl, Word.byte]
  simp

theorem address_eq (word : Word) : address word = word.address := by
  apply UInt16.toNat_inj.mp
  rw [address, toNat_and_low word 0x0FFF 12 rfl, Word.address]
  simp
  omega

end Digits

section Accesses

variable (machine : Machine)

@[simp] theorem register_bare (x : Nibble) :
    register x.val machine.bare = .ok (machine.register x) machine.bare := by
  simp [register, item, Machine.bare, Machine.register]
  rfl

@[simp] theorem setRegister_bare (x : Nibble) (value : UInt8) :
    setRegister x.val value machine.bare = .ok ⟨⟩ (machine.setRegister x value).bare := by
  simp [setRegister, replace, Machine.bare, Machine.setRegister]

@[simp] theorem cell_bare (address : Nat) :
    cell address machine.bare = .ok (machine.memory.read address) machine.bare := by
  have inside : address % 4096 < 4096 := by omega
  simp [cell, item, Machine.bare, Memory.size, Memory.read, inside]

@[simp] theorem setCell_bare (address : Nat) (value : UInt8) :
    setCell address value machine.bare =
      .ok ⟨⟩ { machine with memory := machine.memory.write address value }.bare := by
  have inside : address % 4096 < 4096 := by omega
  simp [setCell, replace, Machine.bare, Memory.size, Memory.write, inside]

theorem pushCall_bare (address : Word) :
    pushCall address machine.bare =
      match machine.stack.push address with
      | .ok stack => .ok ⟨⟩ { machine with stack := stack }.bare
      | .error fault => .error (.fault (.stack fault)) machine.bare := by
  have bounded := machine.stack.bounded
  have size : machine.bare.stack.size = machine.stack.calls.length := by simp [Machine.bare]
  unfold CallStack.push
  by_cases room : machine.stack.calls.length < 16
  · have notFull : machine.stack.calls.length ≠ 16 := by omega
    simp [pushCall, append, CallStack.capacity, size, room, notFull]
    simp [Machine.bare]
  · have full : machine.stack.calls.length = 16 := by omega
    simp [pushCall, CallStack.capacity, size, full]

theorem popCall_bare :
    popCall machine.bare =
      match machine.stack.pop with
      | .ok (address, stack) => .ok address { machine with stack := stack }.bare
      | .error fault => .error (.fault (.stack fault)) machine.bare := by
  cases outcome : machine.stack.pop with
  | error fault =>
      obtain ⟨rfl, empty⟩ := (CallStack.popError _ _).mp outcome
      simp [popCall, Machine.bare, empty]
  | ok popped =>
      obtain ⟨address, stack⟩ := popped
      have shape := (CallStack.popOk _ _ _).mp outcome
      simp [popCall, Machine.bare, shape]

end Accesses

end Bare
end ChipEight
