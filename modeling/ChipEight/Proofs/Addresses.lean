/-
This file bounds the addresses that a machine reaches by steps alone.
-/
import ChipEight.Proofs.Turn

namespace ChipEight

namespace Operation

/-- Only steps and ticks execute words; no word is executed or handled directly, and the program
counter is not moved by hand. -/
def isDriven : Operation → Bool
  | .execute _ | .handle _ _ | .advance _ => false
  | _ => true

end Operation

namespace Advance

theorem behind_toNat (address : Word) :
    (address + wordSize).toNat = (address.toNat + 2) % 65536 :=
  UInt16.toNat_add address wordSize

theorem next_toNat (counter : Word) :
    (next.apply counter).toNat = (counter.toNat + 2) % 65536 :=
  behind_toNat counter

theorem skipIf_mem (condition : Bool) : skipIf condition ∈ [.stay, .next, .skip] := by
  cases condition <;> decide

theorem skip_toNat (counter : Word) :
    (skip.apply counter).toNat = (counter.toNat + 4) % 65536 :=
  UInt16.toNat_add counter (2 * wordSize)

end Advance

namespace Machine

/-- One rule holds of the program counter and one of all return addresses. -/
structure Addressed (place caller : Word → Prop) (machine : Machine) : Prop where
  counter : place machine.counter
  calls : ∀ address ∈ machine.stack.calls, caller address

section Run

variable {place caller : Word → Prop} {machine : Machine}

theorem Addressed.of_still {still : Machine} (addressed : Addressed place caller machine)
    (same : Still machine still) : Addressed place caller still where
  counter := by rw [same.counter]; exact addressed.counter
  calls := by rw [same.stack]; exact addressed.calls

/-- A fresh machine stands at the start of the program and has no calls. -/
theorem Addressed.of_fresh {fresh : Machine} (start : place (UInt16.ofNat Memory.programStart))
    (counter : fresh.counter = UInt16.ofNat Memory.programStart) (stack : fresh.stack = .empty) :
    Addressed place caller fresh where
  counter := counter ▸ start
  calls := by simp [stack, CallStack.empty]

/-- What every turn keeps and the start of a program has, every driven operation keeps. -/
theorem apply_addressed (start : place (UInt16.ofNat Memory.programStart))
    (addressed : Addressed place caller machine) (operation : Operation)
    (driven : operation.isDriven)
    (turned : ∀ turn ∈ (machine.turn? operation).toList, Addressed place caller turn.before →
      Addressed place caller turn.after) :
    Addressed place caller (machine.apply operation).machine := by
  by_cases play : operation.isPlay
  · obtain ⟨-, still⟩ | ⟨turn, dirty, taken, rfl, after⟩ := machine.apply_turn operation play
    · exact addressed.of_still still
    · have next := turned turn (by simp [taken]) addressed
      rw [after]
      exact ⟨next.counter, next.calls⟩
  · cases operation with
    | load name data =>
        simp only [apply, applyLoad]
        split
        · exact .of_fresh start rfl rfl
        · exact addressed
    | loadFile files path =>
        simp only [apply, applyLoadFile, loadFile]
        split
        · exact .of_fresh start rfl rfl
        · exact ⟨addressed.counter, addressed.calls⟩
    | reset => exact .of_fresh start rfl rfl
    | execute | handle | advance => cases driven
    | step | tick | setKeypad | setKey | toggleKey | setGenerator | takeDirty =>
        simp [Operation.isPlay] at play

theorem after_addressed (start : place (UInt16.ofNat Memory.programStart))
    (addressed : Addressed place caller machine) (operations : List Operation)
    (driven : ∀ operation ∈ operations, operation.isDriven)
    (turned : ∀ turn ∈ machine.turns operations, Addressed place caller turn.before →
      Addressed place caller turn.after) :
    Addressed place caller (machine.after operations) := by
  induction operations generalizing machine with
  | nil => exact addressed
  | cons operation rest inductionHypothesis =>
      rw [List.forall_mem_cons] at driven
      rw [turns, List.forall_mem_append] at turned
      have next := apply_addressed start addressed operation driven.1 turned.1
      exact inductionHypothesis next driven.2 turned.2

end Run

section Perform

variable (machine : Machine)

/-- An instruction adds no return address but its own. -/
theorem mem_performCalls (instruction : Instruction) (address : Word)
    (inside : address ∈ machine.performCalls instruction) :
    address = machine.counter ∨ address ∈ machine.stack.calls := by
  cases instruction with
  | call target => exact List.mem_cons.mp inside
  | leave => exact .inr (List.mem_of_mem_tail inside)
  | _ => exact .inr inside

/-- All moves but the jumps are the same for every instruction. -/
theorem performAdvance_cases (instruction : Instruction) :
    machine.performAdvance instruction ∈ [.stay, .next, .skip] ∨
    (instruction = .leave ∧ machine.performAdvance instruction =
      .jump (machine.stack.calls.headD 0 + Advance.wordSize)) ∨
    (∃ target, (instruction = .jump target ∨ instruction = .call target) ∧
      machine.performAdvance instruction = .jump target) ∨
    (∃ target, instruction = .jumpFrom target ∧
      machine.performAdvance instruction =
        .jump (target + (machine.register 0).toUInt16)) := by
  cases instruction with
  | leave => exact .inr (.inl ⟨rfl, rfl⟩)
  | jump target => exact .inr (.inr (.inl ⟨target, .inl rfl, rfl⟩))
  | call target => exact .inr (.inr (.inl ⟨target, .inr rfl, rfl⟩))
  | jumpFrom target => exact .inr (.inr (.inr ⟨target, rfl, rfl⟩))
  | skipIfByte | skipUnlessByte | skipIfEqual | skipUnlessEqual | skipIfPressed
  | skipIfReleased => exact .inl (Advance.skipIf_mem _)
  | awaitKey =>
      left
      rw [performAdvance_awaitKey]
      split <;> simp
  | _ => exact .inl (List.mem_cons_of_mem _ List.mem_cons_self)

end Perform

end Machine

namespace Turn

variable (turn : Turn)

/-- A return that was executed had a caller. -/
theorem caller_mem (leaves : turn.instruction = .leave) :
    turn.before.stack.calls.headD 0 ∈ turn.before.stack.calls := by
  obtain ⟨caller, stack, -⟩ := turn.leave_shape leaves
  rw [stack]
  exact List.mem_cons_self

/-- An address in a word has three digits. -/
theorem target_lt (target : Word)
    (reads : turn.instruction = .jump target ∨ turn.instruction = .call target ∨
      turn.instruction = .jumpFrom target) : target.toNat < 4096 := by
  obtain ⟨word, encodes⟩ := turn.encodes
  have small : word.address.toNat < 4096 := by
    rw [Word.address, UInt16.toNat_ofNat']
    omega
  obtain reads | reads | reads := reads <;> rw [reads] at encodes <;> rw [encodes.2] <;> exact small

end Turn

namespace Machine

/-- A jump by an offset leads farthest, and a call lies inside the memory. -/
abbrev InBounds (machine : Machine) : Prop :=
  machine.Addressed (fun counter => counter.toNat ≤ 0x10FE) (fun caller => caller.toNat ≤ 0xFFE)

/-- Instructions start at even addresses. -/
abbrev Aligned (machine : Machine) : Prop :=
  machine.Addressed (fun counter => 2 ∣ counter.toNat) (fun caller => 2 ∣ caller.toNat)

end Machine

namespace Turn

/-- The address in a jump or a call is even, and so is the place where an offset leads. -/
def landsEven (turn : Turn) : Bool :=
  match turn.instruction with
  | .jump target | .call target => decide (2 ∣ target.toNat)
  | .jumpFrom _ => decide (2 ∣ turn.after.counter.toNat)
  | _ => true

variable (turn : Turn)

theorem after_inBounds (inBounds : turn.before.InBounds) : turn.after.InBounds := by
  have inside := turn.inside
  constructor
  · rw [turn.moved.counter]
    obtain moves | ⟨leaves, moves⟩ | ⟨target, reads, moves⟩ | ⟨target, reads, moves⟩ :=
      turn.before.performAdvance_cases turn.instruction
    · simp only [List.mem_cons, List.not_mem_nil, or_false] at moves
      obtain moves | moves | moves := moves <;> rw [moves]
      · exact inBounds.counter
      · rw [Advance.next_toNat]
        omega
      · rw [Advance.skip_toNat]
        omega
    · have caller := inBounds.calls _ (turn.caller_mem leaves)
      rw [moves, Advance.apply, Advance.behind_toNat]
      omega
    · have small := turn.target_lt target (reads.imp_right .inl)
      rw [moves, Advance.apply]
      omega
    · -- The farthest jump adds the largest byte to the last address.
      have small := turn.target_lt target (.inr (.inr reads))
      have offset := (turn.before.register 0).toNat_lt
      rw [moves, Advance.apply, UInt16.toNat_add, UInt8.toNat_toUInt16]
      omega
  · intro address member
    rw [turn.moved.calls] at member
    obtain rfl | kept := turn.before.mem_performCalls _ _ member
    · -- The word of the call itself was fetched from inside the memory.
      omega
    · exact inBounds.calls address kept

theorem after_aligned (lands : turn.landsEven) (aligned : turn.before.Aligned) :
    turn.after.Aligned := by
  constructor
  · have even := aligned.counter
    obtain moves | ⟨leaves, moves⟩ | ⟨target, reads, moves⟩ | ⟨target, reads, -⟩ :=
      turn.before.performAdvance_cases turn.instruction
    · rw [turn.moved.counter]
      simp only [List.mem_cons, List.not_mem_nil, or_false] at moves
      obtain moves | moves | moves := moves <;> rw [moves]
      · exact even
      · rw [Advance.next_toNat]
        omega
      · rw [Advance.skip_toNat]
        omega
    · have caller := aligned.calls _ (turn.caller_mem leaves)
      rw [turn.moved.counter, moves, Advance.apply, Advance.behind_toNat]
      omega
    · rw [turn.moved.counter, moves]
      obtain reads | reads := reads <;> rw [landsEven, reads] at lands <;>
        exact of_decide_eq_true lands
    · rw [landsEven, reads] at lands
      exact of_decide_eq_true lands
  · intro address member
    rw [turn.moved.calls] at member
    obtain rfl | kept := turn.before.mem_performCalls _ _ member
    · exact aligned.counter
    · exact aligned.calls address kept

end Turn

namespace Machine

section Reached

/-- No sum of addresses wraps around, and a program counter that has left the memory fails at the
next fetch. -/
structure Contained (machine : Machine) : Prop where
  counter : machine.counter.toNat ≤ 0x10FE
  calls : ∀ caller ∈ machine.stack.calls, caller.toNat ≤ 0xFFE
  next : (Advance.next.apply machine.counter).toNat = machine.counter.toNat + 2
  skip : (Advance.skip.apply machine.counter).toNat = machine.counter.toNat + 4
  behind : ∀ caller ∈ machine.stack.calls,
    (caller + Advance.wordSize).toNat = caller.toNat + 2
  caught : machine.loaded = true → 4096 ≤ machine.counter.toNat + 1 →
    machine.step = ⟨machine, .error (.word (.outside machine.counter.toNat 4096))⟩

theorem InBounds.contained {machine : Machine} (inBounds : InBounds machine) :
    Contained machine where
  counter := inBounds.counter
  calls := inBounds.calls
  next := by
    have bound := inBounds.counter
    rw [Advance.next_toNat]
    omega
  skip := by
    have bound := inBounds.counter
    rw [Advance.skip_toNat]
    omega
  behind := by
    intro caller member
    have bound := inBounds.calls caller member
    rw [Advance.behind_toNat]
    omega
  caught := by
    intro loaded outside
    rw [step, if_pos loaded, fetch_eq, if_neg (by omega)]

/-- However steps, loads and key events follow each other, the addresses stay bounded; and if all
jumps land on even addresses, every address on the way is even. -/
theorem addresses_contained (config : Config) (source : Generator) (operations : List Operation)
    (driven : ∀ operation ∈ operations, operation.isDriven) :
    Contained ((initial config source).after operations) ∧
    ((∀ turn ∈ (initial config source).turns operations, turn.landsEven) →
      ∀ first, first <+: operations → Aligned ((initial config source).after first)) := by
  constructor
  · have start : InBounds (initial config source) := .of_fresh (by decide) rfl rfl
    have reached := after_addressed (by decide) start operations driven
      fun turn _ => turn.after_inBounds
    exact InBounds.contained reached
  · rintro lands first ⟨second, rfl⟩
    have start : Aligned (initial config source) := .of_fresh (by decide) rfl rfl
    rw [turns_append, List.forall_mem_append] at lands
    rw [List.forall_mem_append] at driven
    exact after_addressed (by decide) start first driven.1
      fun turn member => turn.after_aligned (lands.1 turn member)

/-- A call and its return stay on even addresses. -/
theorem addresses_contained_call :
    let start := initial {} (.arithmetic 0 1)
    let operations := [Operation.load "" [0x22, 0x02, 0x00, 0xEE], .step, .setKey 3 true, .tick]
    (∀ turn ∈ start.turns operations, turn.landsEven) ∧ Contained (start.after operations) ∧
      Aligned (start.after operations) := by
  intro start operations
  have lands : ∀ turn ∈ start.turns operations, turn.landsEven := by decide +kernel
  obtain ⟨contained, aligned⟩ := addresses_contained {} (.arithmetic 0 1) operations (by decide)
  exact ⟨lands, contained, aligned lands operations List.prefix_rfl⟩

end Reached

end Machine
end ChipEight
