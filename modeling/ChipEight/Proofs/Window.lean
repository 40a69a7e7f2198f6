/-
This file follows the bytes of a window in the memory: registers that were stored there come back.
-/
import Mathlib.Data.List.Nodup
import ChipEight.Proofs.Congruence
import ChipEight.Proofs.Overlay

namespace ChipEight

namespace Memory

section Cells

/-- The cells of a window follow each other, and behind the last cell comes the first one. -/
def window (start count : Nat) : List Nat :=
  (List.range count).map fun offset => (start + offset) % 4096

theorem mem_window (start count address : Nat) :
    address ∈ window start count ↔ ∃ offset < count, (start + offset) % 4096 = address := by
  simp only [window, List.mem_map, List.mem_range]

theorem window_inside {start count address : Nat} (inside : address ∈ window start count) :
    address < 4096 := by
  obtain ⟨offset, -, rfl⟩ := (mem_window _ _ _).mp inside
  omega

/-- A window that fits into the memory does not reach any cell twice. -/
theorem window_nodup (start count : Nat) (short : count ≤ 4096) : (window start count).Nodup := by
  refine List.Nodup.map_on (fun left below right below' same => ?_) List.nodup_range
  rw [List.mem_range] at below below'
  omega

/-- Memories that read the same are the same. -/
theorem eq_of_read {left right : Memory}
    (same : ∀ address < 4096, left.read address = right.read address) : left = right := by
  obtain ⟨left⟩ := left
  obtain ⟨right⟩ := right
  congr
  refine Vector.ext fun address inside => ?_
  have found := same address inside
  simpa only [read, Nat.mod_eq_of_lt inside] using found

/-- A byte stands where it was placed. -/
theorem Placed.read_of_getElem? {before after : Memory} {start k : Nat} {bytes : List UInt8}
    {value : UInt8} (placed : Placed before start bytes after) (found : bytes[k]? = some value) :
    after.read ((start + k) % 4096) = value := by
  obtain ⟨below, same⟩ := List.getElem?_eq_some_iff.mp found
  exact (placed.inside k below).trans same

/-- Only the cells of their window differ after bytes were placed. -/
theorem Placed.changed {before after : Memory} {start count address : Nat} {bytes : List UInt8}
    (placed : Placed before start bytes after) (length : bytes.length = count)
    (inside : address < 4096) (differs : after.read address ≠ before.read address) :
    address ∈ window start count := by
  by_contra outside
  refine differs (placed.outside address fun offset below same => outside ?_)
  rw [Nat.mod_eq_of_lt inside] at same
  exact (mem_window _ _ _).mpr ⟨offset, length ▸ below, same⟩

end Cells

end Memory

namespace Machine

section Performs

/-- The instruction alone decides what the operation does to the memory, the index register and the
registers. -/
structure Applied (before : Machine) (instruction : Instruction) (reply : Reply) : Prop where
  succeeds (fault : Fault) : reply.answer ≠ .failed fault
  accesses : Accesses before before.index.toNat reply.machine instruction
  index : reply.machine.index = before.performIndex instruction
  memory : reply.machine.memory =
    before.memory.writeAll before.index.toNat (before.performBytes instruction)
  registers (k : Nibble) : ¬ instruction.Writes before.config.shiftSetsFlag k →
    reply.machine.register k = before.register k

variable {machine : Machine} {operation : Operation} {instruction : Instruction}

/-- An operation fails only if its instruction has a reason to. -/
theorem apply_succeeds (next : machine.instructionOf? operation = some instruction)
    (permitted : machine.performFault? instruction = none) (fault : Fault) :
    (machine.apply operation).answer ≠ .failed fault := by
  intro failed
  cases operation with
  | step | tick =>
      have accepted := (machine.stepFault?_instruction next).trans permitted
      rw [(machine.apply_step _ rfl).1] at failed
      cases result : machine.step.result with
      | ok step =>
          rw [result] at failed
          cases failed
      | error other =>
          rw [(machine.step_error_iff other).mp result] at accepted
          cases accepted
  | execute word =>
      have decoded : Instruction.decode? word.family word = some instruction := next
      have accepted : machine.executeFault? word = none := by
        simp only [executeFault?, handleFault?, decoded, permitted]
      have result := machine.execute_result word
      rw [accepted] at result
      simp only [apply, applyExecute, result] at failed
      cases failed
  | handle family word =>
      have decoded : Instruction.decode? family word = some instruction := next
      obtain ⟨other, refused, -⟩ | ⟨_, handled, move, -, -, done, -⟩ :=
        machine.handle_cases family word
      · simp only [handleFault?, decoded, permitted] at refused
        cases refused
      · simp only [apply, applyHandle, done] at failed
        cases failed
  | _ => cases next

/-- An operation performs its instruction, unless that has a reason to fail. -/
theorem apply_applied (next : machine.instructionOf? operation = some instruction)
    (permitted : machine.performFault? instruction = none) :
    Applied machine instruction (machine.apply operation) := by
  have done : machine.deed? operation = some ⟨machine, instruction, permitted⟩ := by
    simp [deed?, next, permitted]
  obtain ⟨none, -⟩ | ⟨deed, same, -, settled⟩ :=
    machine.apply_cases operation (machine.keeps_of_deed done)
  · rw [none] at done
    cases done
  · obtain rfl := Option.some.inj (same.symm.trans done)
    obtain ⟨effect, performs⟩ := Deed.performs ⟨machine, instruction, permitted⟩
    have stored := perform_stored performs
    refine ⟨apply_succeeds next permitted, perform_accesses rfl performs settled,
      settled.index.trans stored.index, settled.memory.trans stored.memory, fun k kept => ?_⟩
    rw [register, settled.registers]
    exact stored.registers k kept

end Performs

section Registers

/-- The registers up to the last one stand in their window, and no other cell has changed. -/
structure Saved (before : Machine) (last : Nibble) (reply : Reply) : Prop where
  succeeds (fault : Fault) : reply.answer ≠ .failed fault
  distinct : (Memory.window before.index.toNat (last.val + 1)).Nodup
  stored (k : Nibble) : k ≤ last →
    reply.machine.memory.read ((before.index.toNat + k.val) % 4096) = before.register k
  changed (address : Nat) : address < 4096 →
    reply.machine.memory.read address ≠ before.memory.read address →
      address ∈ Memory.window before.index.toNat (last.val + 1)
  index : reply.machine.index = before.index
  registers (k : Nibble) : reply.machine.register k = before.register k

/-- The operations bring the index register back and store nothing in the window. -/
structure Spares (start : Machine) (operations : List Operation) (window : List Nat) : Prop where
  keeps : ∀ operation ∈ operations, operation.erases = false
  index : (start.after operations).index = start.index
  spared : ∀ deed ∈ start.deeds operations, ∀ address ∈ window, ∀ value,
    ¬ deed.Stores address value

/-- The registers up to the last one come from their window, and the rest stays. -/
structure Loaded (before : Machine) (last : Nibble) (reply : Reply) : Prop where
  succeeds (fault : Fault) : reply.answer ≠ .failed fault
  below (k : Nibble) : k ≤ last →
    reply.machine.register k = before.memory.read ((before.index.toNat + k.val) % 4096)
  above (k : Nibble) : last < k → reply.machine.register k = before.register k
  index : reply.machine.index = before.index
  memory : reply.machine.memory = before.memory

/-- What comes from the window is what the saved machine held in its registers. -/
structure Restored (saved before : Machine) (last : Nibble) (reply : Reply) : Prop
    extends Loaded before last reply where
  restores (k : Nibble) : k ≤ last → reply.machine.register k = saved.register k

variable {machine : Machine} {operation : Operation} {last : Nibble}

theorem storeRegisters_saved
    (next : machine.instructionOf? operation = some (.storeRegisters last)) :
    Saved machine last (machine.apply operation) := by
  have applied := apply_applied next rfl
  have placed : Memory.Placed _ _ (machine.registers.toList.take (last.val + 1)) _ :=
    applied.accesses
  have length : (machine.registers.toList.take (last.val + 1)).length = last.val + 1 := by
    have small := last.below
    rw [List.length_take, Vector.length_toList]
    omega
  have short : last.val + 1 ≤ 4096 := Nat.le_trans last.below (by decide)
  exact {
    succeeds := applied.succeeds
    distinct := Memory.window_nodup _ _ short
    stored k below :=
      placed.read_of_getElem? ((Deed.registers_getElem? _ _ _ _).mpr ⟨k, below, rfl, rfl⟩)
    changed address inside differs := placed.changed length inside differs
    index := applied.index
    registers k := applied.registers k id }

theorem loadRegisters_loaded
    (next : machine.instructionOf? operation = some (.loadRegisters last)) :
    Loaded machine last (machine.apply operation) := by
  have applied := apply_applied next rfl
  exact {
    succeeds := applied.succeeds
    below := applied.accesses
    above k above := applied.registers k (Nat.not_le.mpr above)
    index := applied.index
    memory := applied.memory }

/-- Cells that no deed stores anything in keep their bytes. -/
theorem Spares.read {operations : List Operation} {window : List Nat} {address : Nat}
    (spares : Spares machine operations window) (member : address ∈ window)
    (inside : address < 4096) :
    (machine.after operations).memory.read address = machine.memory.read address := by
  have none : Deed.lastStored? (machine.deeds operations) address = none := by
    rw [Deed.lastStored?, List.findSome?_eq_none_iff]
    intro deed done
    rw [List.mem_reverse] at done
    exact (deed.stored?_eq_none_iff inside).mpr (spares.spared deed done address member)
  rw [machine.read_after operations spares.keeps, none, Option.getD_none]

/-- Storing the registers and loading them undo each other, in both orders. -/
structure Undoes (machine : Machine) (last : Nibble) : Prop where
  saved (save : Operation) : machine.instructionOf? save = some (.storeRegisters last) →
    Saved machine last (machine.apply save)
  restored (save load : Operation) (between : List Operation) :
    machine.instructionOf? save = some (.storeRegisters last) →
    Spares (machine.apply save).machine between
      (Memory.window machine.index.toNat (last.val + 1)) →
    ((machine.apply save).machine.after between).instructionOf? load =
      some (.loadRegisters last) →
    Restored machine ((machine.apply save).machine.after between) last
      (((machine.apply save).machine.after between).apply load)
  unchanged (load save : Operation) : machine.instructionOf? load = some (.loadRegisters last) →
    (machine.apply load).machine.instructionOf? save = some (.storeRegisters last) →
    ((machine.apply load).machine.apply save).machine.memory = machine.memory

theorem spared_restored {save load : Operation} {between : List Operation}
    (saves : machine.instructionOf? save = some (.storeRegisters last))
    (spares : Spares (machine.apply save).machine between
      (Memory.window machine.index.toNat (last.val + 1)))
    (loads : ((machine.apply save).machine.after between).instructionOf? load =
      some (.loadRegisters last)) :
    Restored machine ((machine.apply save).machine.after between) last
      (((machine.apply save).machine.after between).apply load) := by
  have saved := storeRegisters_saved saves
  have loaded := loadRegisters_loaded loads
  refine ⟨loaded, fun k below => ?_⟩
  have member : (machine.index.toNat + k.val) % 4096 ∈
      Memory.window machine.index.toNat (last.val + 1) :=
    (Memory.mem_window _ _ _).mpr ⟨k.val, Nat.lt_succ_of_le below, rfl⟩
  rw [loaded.below k below, spares.index, saved.index,
    spares.read member (Memory.window_inside member)]
  exact saved.stored k below

/-- The registers hold what stands in their window, so that storing them changes nothing. -/
theorem loaded_unchanged {load save : Operation}
    (loads : machine.instructionOf? load = some (.loadRegisters last))
    (saves : (machine.apply load).machine.instructionOf? save = some (.storeRegisters last)) :
    ((machine.apply load).machine.apply save).machine.memory = machine.memory := by
  have loaded := loadRegisters_loaded loads
  have saved := storeRegisters_saved saves
  refine Memory.eq_of_read fun address inside => ?_
  by_contra differs
  have member := saved.changed address inside (loaded.memory ▸ differs)
  obtain ⟨offset, below, rfl⟩ := (Memory.mem_window _ _ _).mp member
  let k : Nibble := ⟨offset, by have := last.below; omega⟩
  have below : k ≤ last := Nat.le_of_lt_succ below
  rw [loaded.index] at differs
  have stored := saved.stored k below
  rw [loaded.index, loaded.below k below] at stored
  exact differs stored

/-- What is stored comes back, whatever happens elsewhere in between. -/
theorem registers_restored (machine : Machine) (last : Nibble) : Undoes machine last where
  saved _ saves := storeRegisters_saved saves
  restored _ _ _ saves spares loads := spared_restored saves spares loads
  unchanged _ _ loads saves := loaded_unchanged loads saves

/-- The window ends behind the last cell, and in between other bytes are stored elsewhere. -/
theorem registers_restored_wrapped :
    let machine :=
      (((initial {} (.arithmetic 0 1)).setRegister 0 7).setRegister 3 9).withIndex 0xFFE
    let save := Operation.execute 0xF355
    let load := Operation.execute 0xF365
    let between := [Operation.execute 0x60FF, .execute 0xA300, .execute 0xF455, .execute 0xAFFE]
    let middle := (machine.apply save).machine.after between
    Restored machine middle 3 (middle.apply load) ∧ middle.register 0 = 0xFF ∧
      middle.memory.read 0x300 = 0xFF ∧ middle.memory.read 1 = 9 := by
  intro machine save load between middle
  have undoes := registers_restored machine 3
  have untouched : ∀ deed ∈ (machine.apply save).machine.deeds between,
      ∀ address ∈ Memory.window 0xFFE 4, deed.stored? address = none := by
    decide +kernel
  have spares : Spares (machine.apply save).machine between (Memory.window 0xFFE 4) := by
    refine ⟨by decide, by decide +kernel, fun deed done address member => ?_⟩
    exact (deed.stored?_eq_none_iff (Memory.window_inside member)).mp
      (untouched deed done address member)
  refine ⟨undoes.restored save load between (by decide) spares (by decide +kernel), ?_⟩
  decide +kernel

end Registers

end Machine

end ChipEight
