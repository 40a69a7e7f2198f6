/-
This file says where the program counter stands after every word, and that opposite skips exclude
each other.
-/
import ChipEight.Proofs.Addresses

namespace ChipEight

theorem Keypad.isPressed?_eq_some_iff (keypad : Keypad) (number : Nat) (pressed : Bool) :
    keypad.isPressed? number = some pressed ↔
      ∃ key : Nibble, key.val = number ∧ keypad.keys.get key = pressed := by
  rw [isPressed?, Vector.getElem?_eq_some_iff]
  constructor
  · rintro ⟨inside, found⟩
    exact ⟨⟨number, inside⟩, rfl, found⟩
  · rintro ⟨key, rfl, found⟩
    exact ⟨key.below, found⟩

/-- The keys have the numbers below sixteen. -/
theorem Keypad.isPressed?_below (keypad : Keypad) {number : Nat} (small : number < 16) :
    ∃ held, keypad.isPressed? number = some held :=
  ⟨_, (keypad.isPressed?_eq_some_iff number _).mpr ⟨⟨number, small⟩, rfl, rfl⟩⟩

theorem Instruction.Encodes.unique {family : Nibble} {word : Word} {instruction : Instruction}
    (encodes : Encodes family word instruction) (other : Instruction)
    (same : Encodes family word other) : instruction = other :=
  Option.some.inj ((decode_of_encodes _ _ _ encodes).symm.trans (decode_of_encodes _ _ _ same))

namespace Word

section Conditions

variable (word : Word) (machine : Machine)

/-- The word waits while no key is pressed. -/
def WaitsIn : Prop :=
  word.family = 0xF ∧ word.byte = 0x0A ∧ ∀ key : Nibble, machine.keypad.keys.get key = false

/-- The word goes to the address in its last three digits. -/
def Jumps : Prop :=
  word.family = 0x0 ∧ word ≠ 0x00E0 ∧ word ≠ 0x00EE ∨ word.family = 0x1 ∨ word.family = 0x2

/-- The register of the word holds the number of a key in this state. -/
def NamesKey (pressed : Bool) : Prop :=
  ∃ key : Nibble, key.val = (machine.register word.x).toNat ∧
    machine.keypad.keys.get key = pressed

/-- The condition of the word holds. -/
def SkipsIn : Prop :=
  word.family = 0x3 ∧ machine.register word.x = word.byte ∨
  word.family = 0x4 ∧ machine.register word.x ≠ word.byte ∨
  word.family = 0x5 ∧ machine.register word.x = machine.register word.y ∨
  word.family = 0x9 ∧ machine.register word.x ≠ machine.register word.y ∨
  word.family = 0xE ∧ word.byte = 0x9E ∧ word.NamesKey machine true ∨
  word.family = 0xE ∧ word.byte = 0xA1 ∧ word.NamesKey machine false

end Conditions

theorem address_toNat (word : Word) : word.address.toNat = word.toNat % 4096 := by
  rw [address, UInt16.toNat_ofNat']
  omega

end Word

namespace Machine

section Skips

/-- The condition of an instruction that skips. -/
def condition? (machine : Machine) : Instruction → Option Bool
  | .skipIfByte x byte => some (machine.register x == byte)
  | .skipUnlessByte x byte => some (machine.register x != byte)
  | .skipIfEqual x y => some (machine.register x == machine.register y)
  | .skipUnlessEqual x y => some (machine.register x != machine.register y)
  | .skipIfPressed x => some (machine.keypad.isPressed? (machine.register x).toNat == some true)
  | .skipIfReleased x => some (machine.keypad.isPressed? (machine.register x).toNat == some false)
  | _ => none

variable {machine : Machine} {word : Word} {instruction : Instruction} {condition : Bool}

/-- A skip moves the program counter and nothing else. -/
theorem perform_condition (skip : machine.condition? instruction = some condition) :
    machine.perform instruction = ⟨machine, .ok { advance := .skipIf condition }⟩ := by
  cases instruction with
  | skipIfByte | skipUnlessByte | skipIfEqual | skipUnlessEqual | skipIfPressed | skipIfReleased =>
      cases skip
      rfl
  | _ => cases skip

theorem condition?_iff (encodes : Instruction.Encodes word.family word instruction) :
    machine.condition? instruction = some true ↔ word.SkipsIn machine := by
  cases instruction with
  | skipIfByte | skipUnlessByte =>
      obtain ⟨family, rfl, rfl⟩ := encodes
      simp [condition?, Word.SkipsIn, family]
  | skipIfEqual | skipUnlessEqual =>
      obtain ⟨family, rfl, rfl, -⟩ := encodes
      simp [condition?, Word.SkipsIn, family]
  | skipIfPressed | skipIfReleased =>
      obtain ⟨family, rfl, byte⟩ := encodes
      simp [condition?, Word.SkipsIn, Word.NamesKey, Keypad.isPressed?_eq_some_iff, family, byte]
  | jump =>
      obtain ⟨⟨family, -⟩ | family, -⟩ := encodes <;> simp [condition?, Word.SkipsIn, family]
  | clear | leave =>
      obtain ⟨family, -⟩ := encodes
      simp [condition?, Word.SkipsIn, family]
  | _ => simp [condition?, Word.SkipsIn, encodes.1]

theorem performAdvance_condition (skip : machine.condition? instruction = some condition) :
    machine.performAdvance instruction = .skipIf condition :=
  (perform_effects (perform_condition skip)).advance.symm

end Skips

section Flow

/-- Exactly one of these rules says where the word leaves the program counter. -/
structure Flows (before : Machine) (word : Word) (after : Machine) : Prop where
  waits : word.WaitsIn before → after.counter = before.counter
  jumps : word.Jumps → after.counter.toNat = word.toNat % 4096
  offset : word.family = 0xB →
    after.counter.toNat = word.toNat % 4096 + (before.register 0).toNat
  returns : word = 0x00EE → ∃ caller rest, before.stack.calls = caller :: rest ∧
    after.counter.toNat = (caller.toNat + 2) % 65536
  skips : word.SkipsIn before → after.counter.toNat = (before.counter.toNat + 4) % 65536
  passes : ¬ word.WaitsIn before → ¬ word.Jumps → word.family ≠ 0xB → word ≠ 0x00EE →
    ¬ word.SkipsIn before → after.counter.toNat = (before.counter.toNat + 2) % 65536

variable {machine after : Machine} {word : Word} {instruction : Instruction}

theorem performAdvance_jumps (encodes : Instruction.Encodes word.family word instruction)
    (jumps : word.Jumps) : machine.performAdvance instruction = .jump word.address := by
  obtain zero | one | two := jumps
  · obtain rfl := encodes.unique (.jump word.address) ⟨.inl zero, rfl⟩
    rfl
  · obtain rfl := encodes.unique (.jump word.address) ⟨.inr one, rfl⟩
    rfl
  · obtain rfl := encodes.unique (.call word.address) ⟨two, rfl⟩
    rfl

/-- The sum has thirteen bits at most. -/
theorem offset_toNat (word : Word) (offset : UInt8) :
    (word.address + offset.toUInt16).toNat = word.toNat % 4096 + offset.toNat := by
  have small := offset.toNat_lt
  rw [UInt16.toNat_add, Word.address_toNat, UInt8.toNat_toUInt16]
  omega

/-- Without any reason to go elsewhere, the next instruction follows. -/
theorem performAdvance_passes (encodes : Instruction.Encodes word.family word instruction)
    (waits : ¬ word.WaitsIn machine) (jumps : ¬ word.Jumps) (offset : word.family ≠ 0xB)
    (returns : word ≠ 0x00EE) (skips : ¬ word.SkipsIn machine) :
    machine.performAdvance instruction = .next := by
  rw [← condition?_iff encodes] at skips
  cases instruction with
  | leave => exact absurd encodes.2 returns
  | jump => exact absurd (encodes.1.imp_right .inl) jumps
  | call => exact absurd (.inr (.inr encodes.1)) jumps
  | jumpFrom => exact absurd encodes.1 offset
  | awaitKey =>
      have pressed : machine.keypad.highest? ≠ none := fun none =>
        waits ⟨encodes.1, encodes.2.2, (Keypad.highestNone _).mp none⟩
      rw [performAdvance_awaitKey, if_neg pressed]
  | skipIfByte | skipUnlessByte | skipIfEqual | skipUnlessEqual | skipIfPressed | skipIfReleased =>
      rw [performAdvance_condition rfl]
      exact if_neg fun holds => skips (congrArg some holds)
  | _ => rfl

/-- An instruction that is permitted moves the program counter as its word says. -/
theorem Moved.flows (encodes : Instruction.Encodes word.family word instruction)
    (permitted : machine.performFault? instruction = none)
    (moved : Moved machine instruction after) : Flows machine word after where
  waits := by
    rintro ⟨family, byte, released⟩
    obtain rfl := encodes.unique (.awaitKey word.x) ⟨family, rfl, byte⟩
    rw [moved.counter, performAdvance_awaitKey, if_pos ((Keypad.highestNone _).mpr released)]
    rfl
  jumps := by
    intro jumps
    rw [moved.counter, performAdvance_jumps encodes jumps]
    exact word.address_toNat
  offset := by
    intro family
    obtain rfl := encodes.unique (.jumpFrom word.address) ⟨family, rfl⟩
    rw [moved.counter]
    exact offset_toNat word (machine.register 0)
  returns := by
    intro returns
    have family := family_leave word returns
    obtain rfl := encodes.unique (.leave) ⟨family, returns⟩
    cases stack : machine.stack.calls with
    | nil => simp [performFault?, stack] at permitted
    | cons caller rest =>
        refine ⟨caller, rest, rfl, ?_⟩
        rw [moved.counter, performAdvance_leave, stack]
        exact Advance.behind_toNat caller
  skips := by
    intro skips
    rw [moved.counter, performAdvance_condition ((condition?_iff encodes).mpr skips)]
    exact Advance.skip_toNat machine.counter
  passes := by
    intro waits jumps offset returns skips
    rw [moved.counter, performAdvance_passes encodes waits jumps offset returns skips]
    exact Advance.next_toNat machine.counter

theorem execute_flows {signal : Signal} (done : machine.execute word = ⟨after, .ok signal⟩) :
    Flows machine word after := by
  obtain ⟨fault, failed⟩ | ⟨instruction, moved, _, decoded, same, kept⟩ :=
    machine.execute_moved word
  · rw [failed] at done
    cases done
  · have accepted := ((machine.execute_ok_iff word signal).mp (by rw [done])).1
    simp only [executeFault?, handleFault?, decoded] at accepted
    rw [done] at same
    cases same
    exact kept.flows (Instruction.encodes_of_decode _ _ _ decoded) accepted

theorem step_flows {step : Step} (done : machine.step = ⟨after, .ok step⟩) :
    Flows machine machine.nextWord after := by
  obtain ⟨fault, word, failed⟩ | ⟨instruction, moved, _, next, same, kept⟩ := machine.step_moved
  · rw [failed] at done
    cases done
  · let turn : Turn := ⟨machine, instruction, step, next, congrArg Attempt.result done⟩
    rw [done] at same
    cases same
    obtain ⟨-, word, fetched, decoded⟩ := (machine.instruction?_eq_some_iff _).mp next
    obtain ⟨-, rfl⟩ := (machine.fetch_ok_iff word).mp fetched
    exact kept.flows (Instruction.encodes_of_decode _ _ _ decoded) turn.permitted

end Flow

section Opposites

/-- The word moves the program counter on by this distance and changes nothing else. -/
def MovesOn (machine : Machine) (word distance : Word) : Prop :=
  machine.execute word = ⟨{ machine with counter := machine.counter + distance }, .ok .none⟩

/-- One of the two words skips the next instruction, and the other one does not. -/
def OneSkips (machine : Machine) (first second : Word) : Prop :=
  machine.MovesOn first 4 ∧ machine.MovesOn second 2 ∨
    machine.MovesOn first 2 ∧ machine.MovesOn second 4

variable {machine : Machine} {first second word : Word} {condition : Bool}

theorem movesOn_condition (instruction : Instruction)
    (encodes : Instruction.Encodes word.family word instruction)
    (skip : machine.condition? instruction = some condition) :
    machine.MovesOn word (if condition then 4 else 2) := by
  have decoded := Instruction.decode_of_encodes _ _ _ encodes
  rw [MovesOn, execute, handle, decoded]
  simp only [perform_condition skip]
  cases condition <;> rfl

theorem oneSkips_of_opposite (left : machine.MovesOn first (if condition then 4 else 2))
    (right : machine.MovesOn second (if !condition then 4 else 2)) :
    machine.OneSkips first second := by
  cases condition with
  | true => exact .inl ⟨left, right⟩
  | false => exact .inr ⟨left, right⟩

/-- A word cannot move on by two distances. -/
theorem movesOn_four_iff (moves : machine.MovesOn word (if condition then 4 else 2)) :
    machine.MovesOn word 4 ↔ condition = true := by
  cases condition with
  | true => exact iff_of_true moves rfl
  | false =>
      refine iff_of_false (fun skips => ?_) Bool.false_ne_true
      have same := congrArg (fun attempt => attempt.machine.counter) (moves.symm.trans skips)
      exact absurd (UInt16.add_right_inj machine.counter |>.mp same) (by decide)

/-- The program counter follows the word, whether the word is executed directly or in a step. Of two
words with opposite conditions exactly one skips; only a register that holds no number of a key
stops both of them. -/
structure ControlFlow (machine : Machine) : Prop where
  executed (word : Word) (after : Machine) (signal : Signal) :
    machine.execute word = ⟨after, .ok signal⟩ → Flows machine word after
  stepped (after : Machine) (step : Step) :
    machine.step = ⟨after, .ok step⟩ → Flows machine machine.nextWord after
  bytes (first second : Word) : first.family = 0x3 → second.family = 0x4 →
    second.x = first.x → second.byte = first.byte → machine.OneSkips first second
  registers (first second : Word) : first.family = 0x5 → second.family = 0x9 →
    first.n = 0 → second.n = 0 → second.x = first.x → second.y = first.y →
    machine.OneSkips first second
  keys (first second : Word) : first.family = 0xE → second.family = 0xE →
    first.byte = 0x9E → second.byte = 0xA1 → second.x = first.x →
    ((machine.register first.x).toNat < 16 → machine.OneSkips first second ∧
      (machine.MovesOn first 4 ↔ first.NamesKey machine true)) ∧
    (16 ≤ (machine.register first.x).toNat → machine.MovesOn first 2 ∧ machine.MovesOn second 2)

/-- Every word goes where its digits say. -/
theorem control_flows (machine : Machine) : ControlFlow machine where
  executed word after signal done := execute_flows done
  stepped after step done := step_flows done
  bytes first second three four sameX sameByte := by
    have left : machine.MovesOn first _ := movesOn_condition
      (.skipIfByte first.x first.byte) ⟨three, rfl, rfl⟩ rfl
    have right : machine.MovesOn second _ := movesOn_condition
      (.skipUnlessByte first.x first.byte) ⟨four, sameX.symm, sameByte.symm⟩ rfl
    exact oneSkips_of_opposite left right
  registers first second five nine zero zero' sameX sameY := by
    have left : machine.MovesOn first _ := movesOn_condition
      (.skipIfEqual first.x first.y) ⟨five, rfl, rfl, zero⟩ rfl
    have right : machine.MovesOn second _ := movesOn_condition
      (.skipUnlessEqual first.x first.y) ⟨nine, sameX.symm, sameY.symm, zero'⟩ rfl
    exact oneSkips_of_opposite left right
  keys first second family family' pressed released sameX := by
    have left : machine.MovesOn first _ := movesOn_condition
      (.skipIfPressed first.x) ⟨family, rfl, pressed⟩ rfl
    have right : machine.MovesOn second _ := movesOn_condition
      (.skipIfReleased first.x) ⟨family', sameX.symm, released⟩ rfl
    constructor
    · intro small
      refine ⟨?_, ?_⟩
      · obtain ⟨held, asked⟩ := machine.keypad.isPressed?_below small
        rw [asked] at left right
        cases held with
        | true => exact .inl ⟨left, right⟩
        | false => exact .inr ⟨left, right⟩
      · rw [movesOn_four_iff left, beq_iff_eq, Keypad.isPressed?_eq_some_iff]
        rfl
    · intro past
      rw [(Keypad.isPressedPast _ _).mpr past] at left right
      exact ⟨left, right⟩

/-- An offset leads out of the memory, and the number sixteen is no key. -/
theorem control_flows_past :
    let machine := ((initial {} (.arithmetic 0 1)).setRegister 0 255).setRegister 1 16
    let waiting := (machine.setKey 0 true).setRegister 1 0
    (machine.execute 0xBFFF).machine.counter.toNat = 0x10FE ∧
      machine.OneSkips 0x30FF 0x40FF ∧ machine.OneSkips 0x5010 0x9010 ∧
      machine.MovesOn 0xE19E 2 ∧ machine.MovesOn 0xE1A1 2 ∧
      waiting.OneSkips 0xE19E 0xE1A1 ∧ waiting.MovesOn 0xE19E 4 := by
  intro machine waiting
  have flow := control_flows machine
  have landed := (flow.executed 0xBFFF _ .none rfl).offset (by decide)
  have unnamed := (flow.keys 0xE19E 0xE1A1 (by decide) (by decide) (by decide) (by decide)
    (by decide)).2 (by decide)
  have named := ((control_flows waiting).keys 0xE19E 0xE1A1 (by decide) (by decide) (by decide)
    (by decide) (by decide)).1 (by decide)
  exact ⟨landed, flow.bytes _ _ (by decide) (by decide) (by decide) (by decide),
    flow.registers _ _ (by decide) (by decide) (by decide) (by decide) (by decide) (by decide),
    unnamed.1, unnamed.2, named.1, named.2.mpr ⟨0, by decide, by decide⟩⟩

end Opposites

end Machine

end ChipEight
