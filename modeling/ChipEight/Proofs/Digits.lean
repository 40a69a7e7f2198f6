/-
This file follows the decimal digits of a byte through the memory into the registers, where each of
them names a glyph.
-/
import ChipEight.Proofs.Window

namespace ChipEight.Machine

section Digits

/-- The bytes are the decimal digits of the value. -/
structure Spells (first second third value : UInt8) : Prop where
  hundreds : first.toNat ≤ 9
  tens : second.toNat ≤ 9
  ones : third.toNat ≤ 9
  sum : 100 * first.toNat + 10 * second.toNat + third.toNat = value.toNat

/-- The digits of a register stand in the window, and nothing else has changed. -/
structure Converted (before : Machine) (x : Nibble) (reply : Reply) : Prop where
  succeeds (fault : Fault) : reply.answer ≠ .failed fault
  distinct : (Memory.window before.index.toNat 3).Nodup
  spelled : Spells (reply.machine.memory.read (before.index.toNat % 4096))
    (reply.machine.memory.read ((before.index.toNat + 1) % 4096))
    (reply.machine.memory.read ((before.index.toNat + 2) % 4096)) (before.register x)
  kept (address : Nat) : address < 4096 → address ∉ Memory.window before.index.toNat 3 →
    reply.machine.memory.read address = before.memory.read address
  registers (k : Nibble) : reply.machine.register k = before.register k
  index : reply.machine.index = before.index

/-- The index register has found the glyph of a register. -/
structure Selected (before : Machine) (k : Nibble) (reply : Reply) : Prop where
  succeeds (fault : Fault) : reply.answer ≠ .failed fault
  index : reply.machine.index.toNat = 5 * (before.register k).toNat
  registers (j : Nibble) : reply.machine.register j = before.register j

/-- The digits of a value are in the first three registers. As long as they stay there, each of them
has a glyph. -/
structure Reloaded (before : Machine) (value : UInt8) (reply : Reply) : Prop
    extends Loaded before 2 reply where
  spelled : Spells (reply.machine.register 0) (reply.machine.register 1)
    (reply.machine.register 2) value
  selected (next : Machine) (select : Operation) (k : Nibble) :
    (∀ j ≤ 2, next.register j = reply.machine.register j) → k ≤ 2 →
    next.instructionOf? select = some (.selectGlyph k) → Selected next k (next.apply select)

variable {machine : Machine} {operation : Operation} {x k : Nibble}

theorem spells_of_quotients {first second third value : UInt8}
    (hundreds : first.toNat = value.toNat / 10 ^ 2 % 10)
    (tens : second.toNat = value.toNat / 10 ^ 1 % 10)
    (ones : third.toNat = value.toNat / 10 ^ 0 % 10) : Spells first second third value := by
  have small := value.toNat_lt
  constructor <;> omega

theorem storeDigits_converted (next : machine.instructionOf? operation = some (.storeDigits x)) :
    Converted machine x (machine.apply operation) := by
  have applied := apply_applied next rfl
  have placed : Memory.Placed _ _ (digits (machine.register x)) _ := applied.accesses
  have digit (offset : Nat) (below : offset < 3) :
      ((machine.apply operation).machine.memory.read
        ((machine.index.toNat + offset) % 4096)).toNat =
        (machine.register x).toNat / 10 ^ (2 - offset) % 10 := by
    have found := List.getElem?_eq_getElem (l := digits (machine.register x)) below
    rw [placed.read_of_getElem? found]
    exact ((Deed.digits_getElem? _ _ _).mp found).2
  exact {
    succeeds := applied.succeeds
    distinct := Memory.window_nodup _ _ (by decide)
    spelled := spells_of_quotients (digit 0 (by decide)) (digit 1 (by decide))
      (digit 2 (by decide))
    kept address inside outside := by
      by_contra differs
      exact outside (placed.changed rfl inside differs)
    registers k := applied.registers k id
    index := applied.index }

/-- There is a glyph for every digit. -/
theorem selectGlyph_selected (next : machine.instructionOf? operation = some (.selectGlyph k))
    (small : (machine.register k).toNat ≤ 9) : Selected machine k (machine.apply operation) := by
  have permitted : machine.performFault? (.selectGlyph k) = none := if_neg (by omega)
  have applied := apply_applied next permitted
  have place : (machine.apply operation).machine.index =
      UInt16.ofNat (0 + (machine.register k).toNat * 5) := applied.index
  refine ⟨applied.succeeds, ?_, fun j => applied.registers j id⟩
  rw [place, UInt16.toNat_ofNat']
  omega

/-- Loading the window of the digits puts them into the first three registers. -/
theorem Converted.reloaded {converted : Reply} (digits : Converted machine x converted)
    (next : converted.machine.instructionOf? operation = some (.loadRegisters 2)) :
    Reloaded converted.machine (machine.register x) (converted.machine.apply operation) := by
  have loaded := loadRegisters_loaded next
  have spelled : Spells _ _ _ (machine.register x) := digits.spelled
  rw [← digits.index] at spelled
  have first := loaded.below 0 (by decide)
  have second := loaded.below 1 (by decide)
  have third := loaded.below 2 (by decide)
  refine ⟨loaded, ?_, fun shown select k same below select' => ?_⟩
  · rw [first, second, third]
    exact spelled
  · refine selectGlyph_selected select' ?_
    rw [same k below]
    have names : ∀ k : Nibble, k ≤ 2 → k = 0 ∨ k = 1 ∨ k = 2 := by decide
    obtain rfl | rfl | rfl := names k below
    · exact first ▸ spelled.hundreds
    · exact second ▸ spelled.tens
    · exact third ▸ spelled.ones

/-- A register is converted to digits, and these are loaded. -/
structure Spelled (machine : Machine) (x : Nibble) : Prop where
  converted (convert : Operation) : machine.instructionOf? convert = some (.storeDigits x) →
    Converted machine x (machine.apply convert)
  reloaded (convert load : Operation) : machine.instructionOf? convert = some (.storeDigits x) →
    (machine.apply convert).machine.instructionOf? load = some (.loadRegisters 2) →
    Reloaded (machine.apply convert).machine (machine.register x)
      ((machine.apply convert).machine.apply load)

/-- The digits are those of the register as it was, even if one of them replaces it. -/
theorem digits_reloaded (machine : Machine) (x : Nibble) : Spelled machine x where
  converted _ converts := storeDigits_converted converts
  reloaded _ _ converts loads := (storeDigits_converted converts).reloaded loads

/-- The window ends behind the last cell, and the first digit replaces the register. -/
theorem digits_reloaded_wrapped :
    let machine := ((initial {} (.arithmetic 0 1)).setRegister 0 254).withIndex 0xFFFF
    let converted := machine.apply (.execute 0xF033)
    let loaded := converted.machine.apply (.execute 0xF265)
    let shown := loaded.machine.apply (.execute 0xF129)
    Converted machine 0 converted ∧ Reloaded converted.machine 254 loaded ∧
      Selected loaded.machine 1 shown ∧ converted.machine.memory.read 0xFFF = 2 ∧
      loaded.machine.register 0 = 2 ∧ shown.machine.index = 25 := by
  intro machine converted loaded shown
  have spelled := digits_reloaded machine 0
  have digits := spelled.converted (.execute 0xF033) (by decide)
  have reloaded := spelled.reloaded (.execute 0xF033) (.execute 0xF265) (by decide) (by decide)
  have selected := reloaded.selected loaded.machine (.execute 0xF129) 1 (fun _ _ => rfl)
    (by decide) (by decide)
  have value : machine.register 0 = 254 := by decide
  exact ⟨digits, value ▸ reloaded, selected, by decide +kernel⟩

end Digits

end ChipEight.Machine
