/-
This file shows that each family of words does to a bare machine what it does to a machine.
-/
import ChipEight.Proofs.Bare.Drawing

namespace ChipEight.Bare

variable (machine : Machine) (word : Word)

section Frames

@[simp] theorem counter_bare : machine.bare.counter = machine.counter := rfl

@[simp] theorem index_bare : machine.bare.index = machine.index := rfl

@[simp] theorem config_bare : machine.bare.config = machine.config := rfl

@[simp] theorem keypad_bare : machine.bare.keypad = machine.keypad := rfl

@[simp] theorem generator_bare : machine.bare.generator = machine.generator := rfl

@[simp] theorem loaded_bare : machine.bare.loaded = machine.loaded := rfl

end Frames

/-- The flag register is the last one. -/
theorem setFlag_bare (value : UInt8) :
    setRegister 15 value machine.bare =
      .ok ⟨⟩ (machine.setRegister Machine.flagRegister value).bare :=
  setRegister_bare machine Machine.flagRegister value

theorem blank_frame (display : Display) :
    display.frame.map (fun row => row.map fun _ => false) = Display.blank.frame := by
  apply Array.ext
  · simp [Display.frame]
  · intro y _ _
    apply Array.ext
    · simp [Display.frame]
    · intro x _ _
      simp [Display.frame, Display.pixel, Display.blank, BitVec.getMsb_eq_getLsb]

@[simp] theorem clearDisplay_bare :
    clearDisplay machine.bare = .ok ⟨⟩ { machine with display := .blank }.bare := by
  simp only [clearDisplay, modify_apply]
  rw [show machine.bare.display = machine.display.frame from rfl, blank_frame]
  rfl

theorem system_bare : system word machine.bare = (machine.handle 0 word).bare := by
  by_cases clear : word = 0x00E0
  · subst clear
    simp [system]
    rfl
  · by_cases leave : word = 0x00EE
    · subst leave
      have decoded : machine.handle 0 0x00EE = machine.perform .leave := rfl
      simp only [system, decoded, Machine.perform]
      simp [popCall_bare]
      cases machine.stack.pop with
      | error fault => rfl
      | ok popped => rfl
    · have decoded : Instruction.decode? 0 word = some (.jump word.address) := by
        simp [Instruction.decode?, clear, leave]
      simp [system, clear, leave, Machine.handle, decoded, Machine.perform, Attempt.bare,
        address_eq]

theorem jump_bare : jump word machine.bare = (machine.handle 1 word).bare := by
  simp only [jump, pure_apply, address_eq]
  rfl

theorem call_bare : call word machine.bare = (machine.handle 2 word).bare := by
  have decoded : machine.handle 2 word = machine.perform (.call word.address) := rfl
  simp [call, pushCall_bare, decoded, Machine.perform, address_eq]
  cases machine.stack.push machine.counter with
  | error fault => rfl
  | ok stack => rfl

theorem compareByte_bare (holds : UInt8 → UInt8 → Bool) :
    compareByte holds word machine.bare =
      .ok { advance := .skipIf (holds (machine.register word.x) word.byte) } machine.bare := by
  simp [compareByte, x_eq, byte_eq]

theorem compareRegisters_bare (holds : UInt8 → UInt8 → Bool) :
    compareRegisters holds word machine.bare =
      if word.n = 0 then
        .ok { advance := .skipIf (holds (machine.register word.x) (machine.register word.y)) }
          machine.bare
      else .error (.fault (.word (.unsupported word))) machine.bare := by
  have zero : n word = 0 ↔ word.n = 0 := by rw [n_eq, Fin.ext_iff]; rfl
  simp [compareRegisters, x_eq, y_eq, unsupported, zero]

theorem skipIfEqual_bare :
    compareRegisters (· == ·) word machine.bare = (machine.handle 5 word).bare := by
  have decoded : Instruction.decode? 5 word =
      if word.n = 0 then some (.skipIfEqual word.x word.y) else none := rfl
  rw [compareRegisters_bare, Machine.handle, decoded]
  split <;> rfl

theorem skipUnlessEqual_bare :
    compareRegisters (· != ·) word machine.bare = (machine.handle 9 word).bare := by
  have decoded : Instruction.decode? 9 word =
      if word.n = 0 then some (.skipUnlessEqual word.x word.y) else none := rfl
  rw [compareRegisters_bare, Machine.handle, decoded]
  split <;> rfl

theorem storeByte_bare : storeByte word machine.bare = (machine.handle 6 word).bare := by
  simp [storeByte, x_eq, byte_eq]
  rfl

theorem addByte_bare : addByte word machine.bare = (machine.handle 7 word).bare := by
  simp [addByte, x_eq, byte_eq]
  rfl

/-- The results and flags are those of the operators. -/
theorem combined_eq (shiftSetsFlag : Bool) (left right : UInt8) (digit : Nibble) :
    combined digit.val shiftSetsFlag left right =
      (Operator.decode? digit).map fun operator =>
        (operator.result left right, operator.flag? shiftSetsFlag left right) := by
  obtain ⟨digit, inside⟩ := digit
  interval_cases digit <;> rfl

theorem combine_bare : combine word machine.bare = (machine.handle 8 word).bare := by
  have decoded : Instruction.decode? 8 word =
      (Operator.decode? word.n).map fun operator => .combine operator word.x word.y := rfl
  simp only [combine, x_eq, y_eq, n_eq, bind_apply, register_bare, get_apply, combined_eq,
    config_bare, Machine.handle, decoded]
  cases Operator.decode? word.n with
  | none => rfl
  | some operator =>
      simp only [Option.map_some, Machine.perform, Machine.combine]
      cases operator.flag? machine.config.shiftSetsFlag (machine.register word.x)
          (machine.register word.y) with
      | none => simp [Attempt.bare]
      | some flag => simp [Attempt.bare, setFlag_bare]

theorem setIndex_bare : setIndex word machine.bare = (machine.handle 10 word).bare := by
  simp [setIndex, address_eq]
  rfl

/-- The address has twelve bits and the offset eight, so their sum fits into sixteen. -/
theorem jumpFrom_fits : sum 0x10000 word.address.toNat (machine.register 0).toNat =
    .ok (word.address.toNat + (machine.register 0).toNat) := by
  have address : word.address.toNat < 0x1000 := by
    simp [Word.address]
    omega
  have offset := (machine.register 0).toNat_lt
  rw [sum, if_pos (by omega)]

theorem jumpFrom_bare : jumpFrom word machine.bare = (machine.handle 11 word).bare := by
  have offset := register_bare machine 0
  simp at offset
  simp [jumpFrom, address_eq, offset, jumpFrom_fits]
  rfl

theorem random_bare : random word machine.bare = (machine.handle 12 word).bare := by
  have taken : takeByte machine.bare =
      .ok machine.generator.byte { machine with generator := machine.generator.next }.bare := by
    simp [takeByte]
    rfl
  simp [random, taken, x_eq, byte_eq]
  rfl

theorem draw_bare : draw word machine.bare = (machine.handle 13 word).bare := by
  have index := machine.index.toNat_lt
  have height := word.n.isLt
  have lines := drawLines_bare machine machine.index.toNat
    ((machine.register word.x).toNat % Display.width)
    ((machine.register word.y).toNat % Display.height) 0 word.n.val
    (Nat.mod_lt _ (by decide)) (by unfold Display.height; omega) false
  rw [← List.range_eq_range'] at lines
  simp [draw, x_eq, y_eq, n_eq, lines, setFlag_bare]
  rfl

theorem askKey_bare : askKey word machine.bare = (machine.handle 14 word).bare := by
  have decoded : Instruction.decode? 14 word = Instruction.decodeKeys? word.x word.byte := rfl
  simp only [askKey, bind_apply, get_apply, x_eq, register_bare, keypad_bare, byte_eq,
    Machine.handle, decoded]
  generalize word.byte = byte
  fun_cases Instruction.decodeKeys? word.x byte with
  | case1 => rfl
  | case2 => rfl
  | case3 => simp [*, unsupported, Attempt.bare]

theorem selectGlyph_bare (x : Nibble) :
    selectGlyph x.val machine.bare = (machine.perform (.selectGlyph x)).bare := by
  have digit := (machine.register x).toNat_lt
  have location : sum hostLimit Font.location ((machine.register x).toNat * Font.glyphSize) =
      .ok (Font.location + (machine.register x).toNat * Font.glyphSize) :=
    sum_small _ _ (by simp only [Font.location, Font.glyphSize]; omega)
  simp only [selectGlyph, bind_apply, register_bare, location, check_ok, ite_run, Machine.perform]
  split
  · rfl
  · rfl

theorem storeCells_bare (index offset : Nat) (values : List UInt8)
    (near : index + offset + values.length < 0x100000000) :
    storeCells index offset values machine.bare =
      .ok ⟨⟩ { machine with
        memory := machine.memory.writeAll (index + offset) values }.bare := by
  induction values generalizing machine offset with
  | nil => rfl
  | cons value rest inductionHypothesis =>
      simp only [List.length_cons] at near
      simp only [storeCells, bind_apply, sum_small index offset (by omega), check_ok, setCell_bare]
      rw [inductionHypothesis _ (offset + 1) (by omega)]
      rfl

theorem loadCells_bare (index offset count : Nat) (near : index + offset + count < 0x100000000)
    (within : offset + count ≤ 16) :
    loadCells index (List.range' offset count) machine.bare =
      .ok ⟨⟩ { machine with
        registers := Vector.ofFn fun x : Nibble =>
          if offset ≤ x.val ∧ x.val < offset + count then machine.memory.read (index + x.val)
          else machine.register x }.bare := by
  induction count generalizing machine offset with
  | zero =>
      have same : (Vector.ofFn fun x : Nibble =>
          if offset ≤ x.val ∧ x.val < offset + 0 then machine.memory.read (index + x.val)
          else machine.register x) = machine.registers := by
        apply Vector.ext
        intro x inside
        simp only [Vector.getElem_ofFn]
        rw [if_neg (by omega)]
        rfl
      simp only [loadCells, List.range'_zero, pure_apply, same]
  | succ count inductionHypothesis =>
      obtain ⟨here, first⟩ : ∃ here : Nibble, here.val = offset := ⟨⟨offset, by omega⟩, rfl⟩
      have written := setRegister_bare machine here (machine.memory.read (index + offset))
      rw [first] at written
      rw [List.range'_succ, loadCells]
      simp only [bind_apply, sum_small index offset (by omega), check_ok, cell_bare, written]
      rw [inductionHypothesis _ (offset + 1) (by omega) (by omega)]
      have joined : (Vector.ofFn fun x : Nibble =>
          if offset + 1 ≤ x.val ∧ x.val < offset + 1 + count then
            machine.memory.read (index + x.val)
          else (machine.setRegister here (machine.memory.read (index + offset))).register x) =
          Vector.ofFn fun x : Nibble =>
            if offset ≤ x.val ∧ x.val < offset + (count + 1) then
              machine.memory.read (index + x.val)
            else machine.register x := by
        congr 1
        funext x
        rw [Machine.registerSetRegister]
        by_cases same : here = x
        · subst same
          rw [if_neg (by omega), if_pos rfl, if_pos (by omega), first]
        · have apart : x.val ≠ offset := fun equal => same (Fin.ext (first.trans equal.symm))
          rw [if_neg same]
          exact if_congr (by omega) rfl rfl
      exact congrArg (fun registers =>
        EStateM.Result.ok PUnit.unit { machine with registers := registers }.bare) joined

/-- The registers up to and including the last one form a slice. -/
theorem front_bare (x : Nibble) :
    front machine.bare.registers (x.val + 1) = .ok (machine.registers.toList.take (x.val + 1)) := by
  have inside := x.isLt
  have size : machine.bare.registers.size = 16 := Vector.size_toArray machine.registers
  rw [front, if_pos]
  · rfl
  · omega

theorem storeDigits_bare (x : Nibble) :
    storeDigits x.val machine.bare = (machine.perform (.storeDigits x)).bare := by
  have near := machine.index.toNat_lt
  have stored := storeCells_bare machine machine.index.toNat 0
    (Machine.digits (machine.register x)) (by simp [Machine.digits]; omega)
  simp only [Machine.digits] at stored
  simp only [storeDigits, bind_apply, get_apply, register_bare, index_bare, stored]
  rfl

theorem storeRegisters_bare (x : Nibble) :
    storeRegisters x.val machine.bare = (machine.perform (.storeRegisters x)).bare := by
  have near := machine.index.toNat_lt
  have last := x.isLt
  have stored := storeCells_bare machine machine.index.toNat 0
    (machine.registers.toList.take (x.val + 1)) (by simp; omega)
  simp only [storeRegisters, bind_apply, get_apply, front_bare, check_ok, index_bare, stored]
  rfl

theorem loadRegisters_bare (x : Nibble) :
    loadRegisters x.val machine.bare = (machine.perform (.loadRegisters x)).bare := by
  have near := machine.index.toNat_lt
  have last := x.isLt
  have loaded := loadCells_bare machine machine.index.toNat 0 (x.val + 1) (by omega) (by omega)
  have length : (machine.registers.toList.take (x.val + 1)).length = x.val + 1 := by
    rw [List.length_take, Vector.length_toList]
    omega
  have upTo (other : Nibble) : (0 ≤ other.val ∧ other.val < 0 + (x.val + 1)) ↔ other ≤ x := by
    rw [Fin.le_def]
    omega
  simp only [loadRegisters, bind_apply, get_apply, front_bare, check_ok, index_bare, length,
    List.range_eq_range', loaded, upTo]
  rfl

theorem other_bare : other word machine.bare = (machine.handle 15 word).bare := by
  have decoded : Instruction.decode? 15 word = Instruction.decodeOther? word.x word.byte := rfl
  simp only [other, x_eq, byte_eq, Machine.handle, decoded]
  generalize word.byte = byte
  fun_cases Instruction.decodeOther? word.x byte with
  | case1 =>
      simp only [readDelay, bind_apply, get_apply, setRegister_bare]
      rfl
  | case2 =>
      simp only [awaitKey, bind_apply, get_apply, keypad_bare, Machine.perform]
      cases machine.keypad.highest? with
      | none => rfl
      | some key => simp [Attempt.bare]
  | case3 =>
      simp only [setDelay, bind_apply, register_bare]
      rfl
  | case4 =>
      simp only [setSound, bind_apply, register_bare]
      rfl
  | case5 =>
      simp only [addIndex, bind_apply, register_bare]
      rfl
  | case6 => exact selectGlyph_bare machine word.x
  | case7 => exact storeDigits_bare machine word.x
  | case8 => exact storeRegisters_bare machine word.x
  | case9 => exact loadRegisters_bare machine word.x
  | case10 => simp [*, unsupported, Attempt.bare]

/-- A family does the same to the bare machine, and it does not panic. -/
theorem handle_bare (family : Nibble) :
    handle family.val word machine.bare = (machine.handle family word).bare := by
  obtain ⟨family, inside⟩ := family
  interval_cases family
  · exact system_bare machine word
  · exact jump_bare machine word
  · exact call_bare machine word
  · exact compareByte_bare machine word _
  · exact compareByte_bare machine word _
  · exact skipIfEqual_bare machine word
  · exact storeByte_bare machine word
  · exact addByte_bare machine word
  · exact combine_bare machine word
  · exact skipUnlessEqual_bare machine word
  · exact setIndex_bare machine word
  · exact jumpFrom_bare machine word
  · exact random_bare machine word
  · exact draw_bare machine word
  · exact askKey_bare machine word
  · exact other_bare machine word

/-- The word is handled by its own family, and then the program counter moves. -/
theorem execute_bare : execute word machine.bare = (machine.execute word).bare := by
  simp only [execute, bind_apply, family_eq, handle_bare, Machine.execute]
  rcases machine.handle word.family word with ⟨handled, _ | effect⟩
  · rfl
  · rfl

end ChipEight.Bare
