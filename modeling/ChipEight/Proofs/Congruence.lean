/-
This file shows that the index register matters only up to the size of the memory.
-/
import ChipEight.Proofs.Deed

namespace ChipEight

/-- The bytes stand from the address on, where the first cell comes behind the last one, and all
other cells are as before. -/
structure Memory.Placed (before : Memory) (address : Nat) (bytes : List UInt8) (after : Memory) :
    Prop where
  inside (k : Nat) (below : k < bytes.length) : after.read ((address + k) % 4096) = bytes[k]
  outside (cell : Nat) : (∀ k < bytes.length, (address + k) % 4096 ≠ cell % 4096) →
    after.read cell = before.read cell

/-- Two instructions give the index register a value that does not depend on the old one. -/
def Instruction.setsIndex : Instruction → Bool
  | .setIndex _ | .selectGlyph _ => true
  | _ => false

theorem Memory.placed_writeAll (memory : Memory) (address : Nat) (bytes : List UInt8)
    (short : bytes.length ≤ 4096) :
    Placed memory address bytes (memory.writeAll address bytes) where
  inside k below := by
    rw [readCongr _ (Nat.mod_mod _ _), readWriteAllInside _ _ _ _ short below]
  outside cell apart := readWriteAllOutside memory address cell bytes apart

namespace Machine

section Congruent

def withIndex (machine : Machine) (index : Word) : Machine :=
  { machine with index := index }

/-- The machines agree but for their index registers, and these agree up to the size of the
memory. -/
def SameModulo (left right : Machine) : Prop :=
  ∃ index : Word, index.toNat % 4096 = left.index.toNat % 4096 ∧ right = left.withIndex index

variable {machine : Machine} {index : Word}

theorem draw_withIndex (congruent : index.toNat % 4096 = machine.index.toNat % 4096)
    (x y height : Nibble) :
    (machine.withIndex index).draw x y height = (machine.draw x y height).withIndex index := by
  simp only [draw, withIndex, register, machine.memory.readAllCongr height.val congruent]

theorem storeDigits_withIndex (congruent : index.toNat % 4096 = machine.index.toNat % 4096)
    (x : Nibble) :
    (machine.withIndex index).storeDigits x = (machine.storeDigits x).withIndex index := by
  simp only [storeDigits, withIndex, register, machine.memory.writeAllCongr _ congruent]

theorem storeRegisters_withIndex (congruent : index.toNat % 4096 = machine.index.toNat % 4096)
    (last : Nibble) :
    (machine.withIndex index).storeRegisters last =
      (machine.storeRegisters last).withIndex index := by
  simp only [storeRegisters, withIndex, machine.memory.writeAllCongr _ congruent]

theorem loadRegisters_withIndex (congruent : index.toNat % 4096 = machine.index.toNat % 4096)
    (last : Nibble) :
    (machine.withIndex index).loadRegisters last =
      (machine.loadRegisters last).withIndex index := by
  have reads (k : Nat) : machine.memory.read (index.toNat + k) =
      machine.memory.read (machine.index.toNat + k) :=
    machine.memory.readCongr (by omega)
  simp only [loadRegisters, withIndex, register, reads]

/-- The sum wraps around at a multiple of the size of the memory. -/
theorem addIndex_congruent (congruent : index.toNat % 4096 = machine.index.toNat % 4096)
    (amount : Word) : (index + amount).toNat % 4096 = (machine.index + amount).toNat % 4096 := by
  simp only [UInt16.toNat_add]
  omega

theorem perform_withIndex (congruent : index.toNat % 4096 = machine.index.toNat % 4096)
    (instruction : Instruction) :
    Attempt.Related SameModulo (machine.perform instruction)
      ((machine.withIndex index).perform instruction) := by
  cases instruction with
  | leave =>
      simp only [perform, withIndex]
      cases machine.stack.pop <;> exact ⟨rfl, index, congruent, rfl⟩
  | call target =>
      simp only [perform, withIndex]
      cases machine.stack.push machine.counter <;> exact ⟨rfl, index, congruent, rfl⟩
  | awaitKey x =>
      simp only [perform, withIndex]
      cases machine.keypad.highest? <;> exact ⟨rfl, index, congruent, rfl⟩
  | combine operator x y =>
      simp only [perform, combine, withIndex, register]
      split <;> exact ⟨rfl, index, congruent, rfl⟩
  | selectGlyph x =>
      have same : (machine.withIndex index).register x = machine.register x := rfl
      by_cases past : Font.glyphs.length < (machine.register x).toNat * Font.glyphSize
      · simp only [perform, same, past, if_true]
        exact ⟨rfl, index, congruent, rfl⟩
      · simp only [perform, same, past, if_false]
        exact ⟨rfl, _, rfl, rfl⟩
  | setIndex target => exact ⟨rfl, target, rfl, rfl⟩
  | addIndex x => exact ⟨rfl, _, addIndex_congruent congruent _, rfl⟩
  | draw x y height => exact ⟨rfl, index, congruent, draw_withIndex congruent x y height⟩
  | storeDigits x => exact ⟨rfl, index, congruent, storeDigits_withIndex congruent x⟩
  | storeRegisters last => exact ⟨rfl, index, congruent, storeRegisters_withIndex congruent last⟩
  | loadRegisters last => exact ⟨rfl, index, congruent, loadRegisters_withIndex congruent last⟩
  -- The other instructions neither read nor change the index register.
  | _ => exact ⟨rfl, index, congruent, rfl⟩

theorem modulo_lockstep : Lockstep (fun _ => True) SameModulo where
  loaded := by rintro _ _ ⟨_, _, rfl⟩; rfl
  fetch := by rintro _ _ ⟨_, _, rfl⟩; rfl
  ticking := by rintro _ _ ⟨_, _, rfl⟩; rfl
  beeps := by rintro _ _ ⟨_, _, rfl⟩; rfl
  keepFetched := by rintro _ _ _ ⟨index, congruent, rfl⟩; exact ⟨index, congruent, rfl⟩
  advance := by rintro _ _ _ ⟨index, congruent, rfl⟩; exact ⟨index, congruent, rfl⟩
  tickTimers := by
    rintro left _ ⟨index, congruent, rfl⟩
    rw [tickTimers_eq, tickTimers_eq]
    exact ⟨index, congruent, rfl⟩
  perform := by rintro _ _ instruction - ⟨_, congruent, rfl⟩; exact perform_withIndex congruent instruction
  counter := by rintro _ _ ⟨_, _, rfl⟩; rfl
  dirty := by rintro _ _ ⟨_, _, rfl⟩; rfl
  display := by rintro _ _ ⟨_, _, rfl⟩; rfl
  performEvents := by rintro _ _ instruction - ⟨_, _, rfl⟩; cases instruction <;> rfl
  direct := by
    rintro left _ operation direct ⟨index, congruent, rfl⟩
    cases operation with
    | load name data =>
        exact applyLoad_related name data ⟨index, congruent, rfl⟩ fun _ => ⟨0, rfl, rfl⟩
    | loadFile files path =>
        exact applyLoadFile_related files path ⟨index, congruent, rfl⟩ fun _ => ⟨0, rfl, rfl⟩
    | reset => exact ⟨rfl, rfl, rfl, 0, rfl, rfl⟩
    | advance | setKeypad | setKey | toggleKey | setGenerator | takeDirty =>
        exact ⟨rfl, rfl, rfl, index, congruent, rfl⟩
    | step | tick | execute | handle => cases direct

end Congruent

section Sums

/-- The amount by which an instruction moves the index register. -/
def added (machine : Machine) : Instruction → Nat
  | .addIndex x => (machine.register x).toNat
  | _ => 0

/-- All amounts that the operations add to the index register. -/
def addedBy (machine : Machine) (operations : List Operation) : Nat :=
  ((machine.deeds operations).map fun deed => deed.before.added deed.instruction).sum

/-- The operations change the index register only by additions. -/
structure OnlyAdds (machine : Machine) (operations : List Operation) : Prop where
  keeps : ∀ operation ∈ operations, operation.erases = false
  unset : ∀ deed ∈ machine.deeds operations, deed.instruction.setsIndex = false

variable (machine : Machine)

theorem performIndex_added (instruction : Instruction) (unset : instruction.setsIndex = false) :
    (machine.performIndex instruction).toNat =
      (machine.index.toNat + machine.added instruction) % 65536 := by
  cases instruction with
  | addIndex x => simp [performIndex, added]
  | setIndex | selectGlyph => cases unset
  | _ => exact (Nat.mod_eq_of_lt machine.index.toNat_lt).symm

theorem addedBy_cons (operation : Operation) (rest : List Operation) :
    machine.addedBy (operation :: rest) =
      ((machine.deed? operation).map fun deed => deed.before.added deed.instruction).getD 0 +
        (machine.apply operation).machine.addedBy rest := by
  rw [addedBy, deeds, List.map_append, List.sum_append]
  cases machine.deed? operation <;> simp [addedBy]

/-- The index register wraps around as the sum does. -/
theorem after_index (operations : List Operation) (adds : OnlyAdds machine operations) :
    (machine.after operations).index.toNat =
      (machine.index.toNat + machine.addedBy operations) % 65536 := by
  induction operations generalizing machine with
  | nil => exact (Nat.mod_eq_of_lt machine.index.toNat_lt).symm
  | cons operation rest inductionHypothesis =>
      obtain ⟨keeps, unset⟩ := adds
      rw [List.forall_mem_cons] at keeps
      rw [deeds, List.forall_mem_append] at unset
      have later := inductionHypothesis _ ⟨keeps.2, unset.2⟩
      rw [after_cons, later, addedBy_cons]
      obtain ⟨none, settled⟩ | ⟨deed, done, rfl, settled⟩ :=
        machine.apply_cases operation keeps.1
      · rw [none, settled.index]
        simp
      · have only := unset.1 deed (by simp [done])
        have moved := deed.before.performIndex_added deed.instruction only
        rw [settled.index, deed.stored.index, moved, done]
        simp [Nat.add_assoc]

end Sums

section Accesses

/-- The instruction reads or writes the cells from the address on. -/
def Accesses (machine : Machine) (address : Nat) (after : Machine) : Instruction → Prop
  | .draw x y height =>
      let left := (machine.register x).toNat % Display.width
      let top := (machine.register y).toNat % Display.height
      let sprite := (List.range height.val).map fun k => machine.memory.read ((address + k) % 4096)
      let drawing := machine.display.drawSprite left top sprite
      after.display = drawing.display ∧
        after.register flagRegister = Operator.bit drawing.collision
  | .storeDigits x =>
      Memory.Placed machine.memory address (digits (machine.register x)) after.memory
  | .storeRegisters last =>
      Memory.Placed machine.memory address (machine.registers.toList.take (last.val + 1))
        after.memory
  | .loadRegisters last => ∀ k ≤ last,
      after.register k = machine.memory.read ((address + k.val) % 4096)
  | _ => True

variable {machine performed after : Machine} {address : Nat} {instruction : Instruction}
  {effect : Effect}

theorem perform_accesses (reached : machine.index.toNat % 4096 = address % 4096)
    (performs : machine.perform instruction = ⟨performed, .ok effect⟩)
    (settled : Settled performed after) : Accesses machine address after instruction := by
  have memory := (perform_stored performs).memory
  rw [machine.memory.writeAllCongr _ reached, ← settled.memory] at memory
  have register (k : Nibble) : after.register k = performed.register k := by
    simp only [Machine.register, settled.registers]
  have reads (k : Nat) : machine.memory.read (machine.index.toNat + k) =
      machine.memory.read ((address + k) % 4096) :=
    machine.memory.readCongr (by omega)
  have short := machine.performBytes_short instruction
  cases instruction with
  | draw x y height =>
      cases performs
      have sprite : machine.memory.readAll machine.index.toNat height.val =
          (List.range height.val).map fun k => machine.memory.read ((address + k) % 4096) := by
        simp only [Memory.readAll, reads]
      rw [Accesses, settled.display, register, ← sprite]
      exact ⟨rfl, (registerSetRegister machine _ _ _).trans (if_pos rfl)⟩
  | storeDigits x =>
      rw [Accesses, memory]
      exact Memory.placed_writeAll _ _ _ (Nat.le_trans short (by decide))
  | storeRegisters last =>
      rw [Accesses, memory]
      exact Memory.placed_writeAll _ _ _ (Nat.le_trans short (by decide))
  | loadRegisters last =>
      cases performs
      intro k below
      rw [register, register_loadRegisters, if_pos below, reads]
  | _ => trivial

/-- Machines whose index registers agree up to the size of the memory reply the same to everything,
and they stay so. After any additions, an instruction reaches the address that the sum without a
wrap leads to. -/
theorem index_modular (left right : Machine) :
    (SameModulo left right → ∀ operations,
      List.Forall₂ (Reply.Related SameModulo) (left.replies operations)
        (right.replies operations)) ∧
    (∀ operations operation deed, OnlyAdds left operations →
      (left.after operations).deed? operation = some deed →
      Accesses (left.after operations) (left.index.toNat + left.addedBy operations)
        (left.after (operations ++ [operation])) deed.instruction) := by
  constructor
  · intro same operations
    exact replies_lockstep modulo_lockstep same operations fun _ _ => trivial
  · intro operations operation deed adds done
    have sum := left.after_index operations adds
    have reached : (left.after operations).index.toNat % 4096 =
        (left.index.toNat + left.addedBy operations) % 4096 := by
      rw [sum]
      omega
    have keeps := (left.after operations).keeps_of_deed done
    rw [after_append]
    obtain ⟨none, -⟩ | ⟨other, same, before, settled⟩ :=
      (left.after operations).apply_cases operation keeps
    · rw [none] at done
      cases done
    · obtain rfl : other = deed := Option.some.inj (same.symm.trans done)
      obtain ⟨effect, performs⟩ := other.performs
      rw [before] at performs
      exact perform_accesses reached performs settled

/-- The index register of the first machine wraps around before the digits are stored, and that of
the second one does not. -/
theorem index_modular_wrapped :
    let loaded := (initial {} (.arithmetic 0 1)).load
      ⟨"", [0x60, 0x20, 0xF0, 0x1E, 0xF0, 0x33], by decide, by decide⟩
    let left := loaded.withIndex 0xFFF0
    let right := left.withIndex 0x0FF0
    let operations := [Operation.step, .setKey 3 true, .tick]
    List.Forall₂ (Reply.Related SameModulo) (left.replies operations) (right.replies operations) ∧
      Accesses (left.after operations) (0xFFF0 + 0x20) (left.after (operations ++ [.step]))
        (.storeDigits 0) := by
  intro loaded left right operations
  obtain ⟨alike, reached⟩ := index_modular left right
  have adds : OnlyAdds left operations := ⟨by decide, by decide +kernel⟩
  have next : ((left.after operations).deed? .step).map Deed.instruction =
      some (.storeDigits 0) := by
    decide +kernel
  obtain ⟨deed, done, stores⟩ := Option.map_eq_some_iff.mp next
  have sum : left.addedBy operations = 0x20 := by decide +kernel
  have accesses := reached operations .step deed adds done
  rw [sum, stores] at accesses
  exact ⟨alike ⟨0x0FF0, by decide, rfl⟩ operations, accesses⟩

end Accesses

end Machine
end ChipEight
