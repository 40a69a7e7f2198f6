/-
This file says which parts of a machine an instruction can change, and that a step adds only the
countdown of the timers.
-/
import ChipEight.Proofs.Cadence.Beat
import ChipEight.Proofs.Lockstep
import ChipEight.Proofs.Outcome

namespace ChipEight

/-- Sums and differences write the flag, and shifts do so if the settings ask for it. -/
def Operator.setsFlag (shiftSetsFlag : Bool) : Operator → Bool
  | .copy | .or | .and | .xor => false
  | .add | .subtract | .subtractFrom => true
  | .shiftRight | .shiftLeft => shiftSetsFlag

theorem Operator.flag?_eq_none (shiftSetsFlag : Bool) (operator : Operator) (left right : UInt8)
    (unset : operator.setsFlag shiftSetsFlag = false) :
    operator.flag? shiftSetsFlag left right = none := by
  cases operator with
  | add | subtract | subtractFrom => cases unset
  | copy | or | and | xor => rfl
  | shiftRight | shiftLeft => exact if_neg (by simpa [setsFlag] using unset)

/-- The fourth digit of a word says whether its operator writes the flag. -/
theorem Operator.setsFlag_digit (shiftSetsFlag : Bool) (digit : Nibble) :
    (decode? digit).any (setsFlag shiftSetsFlag) = true ↔
      digit ∈ [0x4, 0x5, 0x7] ∨ digit ∈ [0x6, 0xE] ∧ shiftSetsFlag = true := by
  revert shiftSetsFlag digit
  decide

/-- The instruction may write this register. -/
def Instruction.Writes (shiftSetsFlag : Bool) (k : Nibble) : Instruction → Prop
  | .setByte x _ | .addByte x _ | .random x _ | .readDelay x | .awaitKey x => k = x
  | .combine operator x _ =>
      k = x ∨ k = Machine.flagRegister ∧ operator.setsFlag shiftSetsFlag = true
  | .draw _ _ _ => k = Machine.flagRegister
  | .loadRegisters last => k ≤ last
  | _ => False

namespace Machine

section Registers

variable (machine : Machine)

/-- A register that is not set stays. -/
theorem register_kept {x k : Nibble} (value : UInt8) (other : k ≠ x) :
    (machine.setRegister x value).register k = machine.register k :=
  (registerSetRegister machine x k value).trans (if_neg other.symm)

/-- The flag is written after the result. -/
theorem register_combine (operator : Operator) (x y k : Nibble) :
    let left := machine.register x
    let right := machine.register y
    (machine.combine operator x y).register k =
      match operator.flag? machine.config.shiftSetsFlag left right with
      | some flag =>
          if flagRegister = k then flag
          else (machine.setRegister x (operator.result left right)).register k
      | none => (machine.setRegister x (operator.result left right)).register k := by
  intro left right
  change (match operator.flag? machine.config.shiftSetsFlag left right with
    | some flag => (machine.setRegister x (operator.result left right)).setRegister flagRegister flag
    | none => machine.setRegister x (operator.result left right)).register k = _
  cases operator.flag? machine.config.shiftSetsFlag left right with
  | none => rfl
  | some flag => exact registerSetRegister _ flagRegister k flag

theorem register_draw (x y height k : Nibble) (other : k ≠ flagRegister) :
    (machine.draw x y height).register k = machine.register k :=
  register_kept machine _ other

theorem register_loadRegisters (last k : Nibble) :
    (machine.loadRegisters last).register k =
      if k ≤ last then machine.memory.read (machine.index.toNat + k.val)
      else machine.register k := by
  exact Vector.getElem_ofFn k.isLt

end Registers

section Perform

variable (machine : Machine)

/-- A refused glyph is not selected. -/
def performIndex : Instruction → Word
  | .setIndex target => target
  | .addIndex x => machine.index + (machine.register x).toUInt16
  | .selectGlyph x =>
      UInt16.ofNat (Font.location + (machine.register x).toNat * Font.glyphSize)
  | _ => machine.index

/-- The bytes that an instruction stores go to consecutive addresses. -/
def performBytes : Instruction → List UInt8
  | .storeDigits x => digits (machine.register x)
  | .storeRegisters last => machine.registers.toList.take (last.val + 1)
  | _ => []

theorem performBytes_short (instruction : Instruction) :
    (machine.performBytes instruction).length ≤ 16 := by
  cases instruction with
  | storeDigits x => simp [performBytes, digits]
  | storeRegisters last => simp [performBytes]
  | _ => exact Nat.zero_le 16

def performGenerator : Instruction → Generator
  | .random _ _ => machine.generator.next
  | _ => machine.generator

/-- An instruction stores its bytes from the index register on. -/
structure Stored (machine : Machine) (instruction : Instruction) (performed : Machine) : Prop where
  index : performed.index = machine.performIndex instruction
  memory : performed.memory =
    machine.memory.writeAll machine.index.toNat (machine.performBytes instruction)
  generator : performed.generator = machine.performGenerator instruction
  registers (k : Nibble) : ¬ instruction.Writes machine.config.shiftSetsFlag k →
    performed.register k = machine.register k

variable {machine} {instruction : Instruction} {performed : Machine} {effect : Effect}

theorem combine_stored (operator : Operator) (x y : Nibble) :
    Stored machine (.combine operator x y) (machine.combine operator x y) := by
  have registers (k : Nibble)
      (kept : ¬ (Instruction.combine operator x y).Writes machine.config.shiftSetsFlag k) :
      (machine.combine operator x y).register k = machine.register k := by
    obtain ⟨other, unset⟩ := not_or.mp kept
    rw [register_combine]
    cases flags : operator.setsFlag machine.config.shiftSetsFlag with
    | false =>
        rw [operator.flag?_eq_none _ _ _ flags]
        exact machine.register_kept _ other
    | true =>
        have apart : flagRegister ≠ k := fun same => unset ⟨same.symm, flags⟩
        split
        · rw [if_neg apart, register_kept machine _ other]
        · rw [register_kept machine _ other]
  refine ⟨?_, ?_, ?_, registers⟩
  all_goals
    simp only [combine]
    split <;> rfl

theorem loadRegisters_stored (last : Nibble) :
    Stored machine (.loadRegisters last) (machine.loadRegisters last) := by
  refine ⟨?_, ?_, ?_, fun k kept => (machine.register_loadRegisters last k).trans (if_neg kept)⟩
  all_goals
    unfold loadRegisters
    rfl

theorem awaitKey_stored (x : Nibble)
    (done : machine.perform (.awaitKey x) = ⟨performed, .ok effect⟩) :
    Stored machine (.awaitKey x) performed := by
  simp only [perform] at done
  split at done
  · cases done
    exact ⟨rfl, rfl, rfl, fun k kept => machine.register_kept _ kept⟩
  · cases done
    exact ⟨rfl, rfl, rfl, fun _ _ => rfl⟩

theorem perform_stored (done : machine.perform instruction = ⟨performed, .ok effect⟩) :
    Stored machine instruction performed := by
  cases instruction with
  -- The other case of these three is a failure.
  | leave | call | selectGlyph =>
      simp only [perform] at done
      split at done
      · cases done
      · cases done
        exact ⟨rfl, rfl, rfl, fun _ _ => rfl⟩
  | awaitKey x => exact awaitKey_stored x done
  | combine operator x y =>
      cases done
      exact combine_stored operator x y
  | setByte | addByte | random | readDelay =>
      cases done
      exact ⟨rfl, rfl, rfl, fun k kept => machine.register_kept _ kept⟩
  | draw x y height =>
      cases done
      exact ⟨rfl, rfl, rfl, fun k kept => machine.register_draw x y height k kept⟩
  | loadRegisters last =>
      cases done
      exact loadRegisters_stored last
  -- The other instructions leave the registers alone.
  | _ =>
      cases done
      exact ⟨rfl, rfl, rfl, fun _ _ => rfl⟩

end Perform

section Words

/-- What a word of this family changes in a machine. -/
structure Framed (family : Nibble) (word : Word) (before after : Machine) : Prop where
  config : after.config = before.config
  name : after.name = before.name
  loaded : after.loaded = before.loaded
  fetched : after.fetched = before.fetched
  cadence : after.cadence = before.cadence
  keypad : after.keypad = before.keypad
  stack : after.stack ≠ before.stack → family = 0x2 ∨ family = 0x0 ∧ word = 0x00EE
  display : after.display ≠ before.display → family = 0x0 ∧ word = 0x00E0 ∨ family = 0xD
  dirty : after.dirty ≠ before.dirty →
    after.dirty = true ∧ (family = 0x0 ∧ word = 0x00E0 ∨ family = 0xD)
  index : after.index ≠ before.index → family = 0xA ∨ family = 0xF ∧ word.byte ∈ [0x1E, 0x29]
  delay : after.delay ≠ before.delay → family = 0xF ∧ word.byte = 0x15
  sound : after.sound ≠ before.sound → family = 0xF ∧ word.byte = 0x18
  memory : after.memory ≠ before.memory → family = 0xF ∧ word.byte ∈ [0x33, 0x55]
  generator : after.generator ≠ before.generator → family = 0xC
  registers (k : Nibble) : after.register k ≠ before.register k →
    k = word.x ∧ (family ∈ [0x6, 0x7, 0x8, 0xC] ∨ family = 0xF ∧ word.byte ∈ [0x07, 0x0A]) ∨
    k ≤ word.x ∧ family = 0xF ∧ word.byte = 0x65 ∨
    k = flagRegister ∧ (family = 0xD ∨ family = 0x8 ∧
      (word.n ∈ [0x4, 0x5, 0x7] ∨ word.n ∈ [0x6, 0xE] ∧ before.config.shiftSetsFlag = true))

variable {machine : Machine} {family : Nibble} {word : Word} {instruction : Instruction}
  {performed : Machine} {effect : Effect}

theorem writes_digits {shiftSetsFlag : Bool} {k : Nibble}
    (encodes : Instruction.Encodes family word instruction)
    (writes : instruction.Writes shiftSetsFlag k) :
    k = word.x ∧ (family ∈ [0x6, 0x7, 0x8, 0xC] ∨ family = 0xF ∧ word.byte ∈ [0x07, 0x0A]) ∨
    k ≤ word.x ∧ family = 0xF ∧ word.byte = 0x65 ∨
    k = flagRegister ∧ (family = 0xD ∨ family = 0x8 ∧
      (word.n ∈ [0x4, 0x5, 0x7] ∨ word.n ∈ [0x6, 0xE] ∧ shiftSetsFlag = true)) := by
  cases instruction with
  | setByte | addByte | random =>
      obtain ⟨rfl, rfl, rfl⟩ := encodes
      exact .inl ⟨writes, .inl (by decide)⟩
  | readDelay | awaitKey =>
      obtain ⟨rfl, rfl, byte⟩ := encodes
      exact .inl ⟨writes, .inr ⟨rfl, by rw [byte]; decide⟩⟩
  | loadRegisters =>
      obtain ⟨rfl, rfl, byte⟩ := encodes
      exact .inr (.inl ⟨writes, rfl, byte⟩)
  | draw =>
      exact .inr (.inr ⟨writes, .inl encodes.1⟩)
  | combine operator =>
      obtain ⟨rfl, rfl, rfl, decoded⟩ := encodes
      obtain target | ⟨flag, sets⟩ := writes
      · exact .inl ⟨target, .inl (by decide)⟩
      · have digit := (Operator.setsFlag_digit shiftSetsFlag word.n).mp (by rw [decoded]; exact sets)
        exact .inr (.inr ⟨flag, .inr ⟨rfl, digit⟩⟩)
  | _ => exact writes.elim

theorem perform_framed (encodes : Instruction.Encodes family word instruction)
    (done : machine.perform instruction = ⟨performed, .ok effect⟩)
    (kept : Performed machine instruction performed) :
    Framed family word machine performed := by
  have effects := perform_effects done
  have stored := perform_stored done
  refine ⟨kept.config, kept.name, kept.loaded, kept.fetched, kept.cadence, kept.keypad,
    fun changed => ?stack, fun changed => ?display, fun changed => ?dirty, fun changed => ?index,
    fun changed => ?delay, fun changed => ?sound, fun changed => ?memory, fun changed => ?generator,
    fun k changed => ?registers⟩
  case stack =>
    cases instruction with
    | call => exact .inl encodes.1
    | leave => exact .inr encodes
    | _ => exact (changed (CallStack.eq_of_calls effects.calls)).elim
  case display =>
    cases instruction with
    | clear => exact .inl encodes
    | draw => exact .inr encodes.1
    | _ => exact (changed effects.display).elim
  case dirty =>
    cases instruction with
    | clear => exact ⟨effects.dirty, .inl encodes⟩
    | draw => exact ⟨effects.dirty, .inr encodes.1⟩
    | _ => exact (changed effects.dirty).elim
  case index =>
    cases instruction with
    | setIndex => exact .inl encodes.1
    | addIndex | selectGlyph => exact .inr ⟨encodes.1, by rw [encodes.2.2]; decide⟩
    | _ => exact (changed stored.index).elim
  case delay =>
    cases instruction with
    | setDelay => exact ⟨encodes.1, encodes.2.2⟩
    | _ => exact (changed kept.delay).elim
  case sound =>
    cases instruction with
    | setSound => exact ⟨encodes.1, encodes.2.2⟩
    | _ => exact (changed kept.sound).elim
  case memory =>
    cases instruction with
    | storeDigits | storeRegisters => exact ⟨encodes.1, by rw [encodes.2.2]; decide⟩
    | _ => exact (changed stored.memory).elim
  case generator =>
    cases instruction with
    | random => exact encodes.1
    | _ => exact (changed stored.generator).elim
  case registers =>
    by_contra outside
    exact changed (stored.registers k fun writes => outside (writes_digits encodes writes))

theorem handle_framed {handled : Machine}
    (done : machine.handle family word = ⟨handled, .ok effect⟩) :
    Framed family word machine handled ∧ handled.counter = machine.counter := by
  obtain ⟨fault, -, failed⟩ | ⟨instruction, performed, move, -, decoded, handles, kept⟩ :=
    machine.handle_cases family word
  · rw [failed] at done
    cases done
  · rw [done] at handles
    cases handles
    simp only [handle, decoded] at done
    have encodes := (Instruction.decode_eq_some_iff family word instruction).mp decoded
    exact ⟨perform_framed encodes done kept, kept.counter⟩

/-- The program counter moves last, and nothing else happens. -/
theorem execute_handled {executed : Machine} {signal : Signal}
    (done : machine.execute word = ⟨executed, .ok signal⟩) :
    ∃ handled move, machine.handle word.family word = ⟨handled, .ok ⟨move, signal⟩⟩ ∧
      executed = { handled with counter := move.apply machine.counter } := by
  unfold execute at done
  split at done
  · cases done
  · rename_i handled effect handles
    cases done
    refine ⟨handled, effect.advance, handles, ?_⟩
    rw [← (handle_framed handles).2]
    rfl

theorem Framed.of_advance {handled : Machine} (framed : Framed family word machine handled)
    (counter : Word) : Framed family word machine { handled with counter := counter } :=
  { framed with }

end Words

section Step

/-- A step adds to the executed word that it keeps the word, moves the cadence on and counts the
timers down. -/
structure Followed (machine executed stepped : Machine) : Prop where
  rest : stepped = { executed with
    fetched := machine.nextWord
    cadence := stepped.cadence
    delay := stepped.delay
    sound := stepped.sound }
  cadence : stepped.cadence = executed.cadence ∨ stepped.cadence = executed.cadence.advance
  delay : stepped.delay = executed.delay ∨ stepped.delay = executed.delay.decrement
  sound : stepped.sound = executed.sound ∨ stepped.sound = executed.sound.decrement

variable (machine : Machine)

/-- No instruction looks at the fetched word. -/
theorem execute_keepFetched (kept word : Word) :
    (machine.keepFetched kept).execute word =
      ⟨(machine.execute word).machine.keepFetched kept, (machine.execute word).result⟩ := by
  have same : SameBut keepFetched machine (machine.keepFetched kept) := ⟨kept, rfl⟩
  obtain ⟨result, other, shape⟩ :=
    execute_lockstep fetched_lockstep.toExecuteLockstep same word fun _ _ => trivial
  have unchanged : ((machine.keepFetched kept).execute word).machine.fetched = kept := by
    obtain ⟨fault, -, failed⟩ | ⟨_, handled, move, -, -, done, performed⟩ :=
      (machine.keepFetched kept).execute_cases word
    · rw [failed]
      rfl
    · rw [done]
      exact performed.fetched
  obtain rfl : other = kept := by rw [← unchanged, shape]; rfl
  rw [← shape, ← result]

variable {machine}

theorem settle_followed {executed : Machine} (signal : Signal) :
    Followed machine executed ((executed.keepFetched machine.nextWord).settle signal).1 := by
  obtain ⟨step, settled, -⟩ | ⟨step, settled, -⟩ :=
    (executed.keepFetched machine.nextWord).settle_cases signal
  · rw [settled]
    exact ⟨rfl, .inl rfl, .inl rfl, .inl rfl⟩
  · rw [settled, tickTimers_eq]
    refine ⟨rfl, .inr rfl, ?_, ?_⟩
    · exact (ite_eq_or_eq _ _ _).symm
    · exact (ite_eq_or_eq _ _ _).symm

theorem step_followed {stepped : Machine} {step : Step}
    (done : machine.step = ⟨stepped, .ok step⟩) :
    ∃ executed signal, machine.execute machine.nextWord = ⟨executed, .ok signal⟩ ∧
      Followed machine executed stepped := by
  obtain ⟨fault, word, -, -, failed⟩ | ⟨word, _, _, _, -, loaded, fetched, -⟩ := machine.step_cases
  · rw [failed] at done
    cases done
  obtain ⟨inside, rfl⟩ := (machine.fetch_ok_iff word).mp fetched
  rw [Machine.step, if_pos loaded, fetched] at done
  simp only [executeFetched, execute_keepFetched] at done
  cases executes : machine.execute machine.nextWord with
  | mk executed result =>
      rw [executes] at done
      cases result with
      | error fault => cases done
      | ok signal =>
          cases done
          exact ⟨executed, signal, rfl, settle_followed signal⟩

/-- An instruction changes the parts that its family and its digits name. The program counter moves
after it, and then a step adds the fetched word and the countdown; a step that fails adds only the
word. -/
theorem instructions_framed (machine : Machine) :
    (∀ family word handled effect, machine.handle family word = ⟨handled, .ok effect⟩ →
      Framed family word machine handled ∧ handled.counter = machine.counter) ∧
    (∀ word executed signal, machine.execute word = ⟨executed, .ok signal⟩ →
      Framed word.family word machine executed ∧
      ∃ handled move, machine.handle word.family word = ⟨handled, .ok ⟨move, signal⟩⟩ ∧
        executed = { handled with counter := move.apply machine.counter }) ∧
    (∀ stepped step, machine.step = ⟨stepped, .ok step⟩ →
      ∃ executed signal, machine.execute machine.nextWord = ⟨executed, .ok signal⟩ ∧
        Followed machine executed stepped) ∧
    (∀ stepped fault, machine.step = ⟨stepped, .error fault⟩ →
      stepped = { machine with fetched := stepped.fetched }) := by
  refine ⟨fun _ _ _ _ => handle_framed, ?_, fun _ _ => step_followed, ?_⟩
  · intro word executed signal done
    obtain ⟨handled, move, handles, rfl⟩ := execute_handled done
    exact ⟨(handle_framed handles).1.of_advance _, handled, move, handles, rfl⟩
  · intro stepped fault failed
    obtain ⟨_, word, -, -, fails⟩ | ⟨_, _, _, _, -, -, -, -, -, -, done⟩ := machine.step_cases
    · rw [failed] at fails
      cases fails
      rfl
    · rw [failed] at done
      cases done

/-- A sum into the flag register is handled, executed and stepped over. -/
theorem instructions_framed_sum :
    let machine := (initial {} (.arithmetic 0 1)).load ⟨"", [0x8F, 0x14], by decide, by decide⟩
    let handled := (machine.handle 0x8 0x8F14).machine
    let executed := (machine.execute 0x8F14).machine
    (Framed 0x8 0x8F14 machine handled ∧ handled.counter = machine.counter) ∧
    Framed 0x8 0x8F14 machine executed ∧ Followed machine executed machine.step.machine := by
  intro machine handled executed
  obtain ⟨handles, executes, steps, -⟩ := instructions_framed machine
  have word : machine.nextWord = 0x8F14 := by decide +kernel
  have done : machine.execute machine.nextWord = ⟨executed, .ok .none⟩ := by rw [word]; rfl
  have stepped : machine.step.result = .ok (.executed false) := by decide +kernel
  obtain ⟨other, signal, same, followed⟩ :=
    steps machine.step.machine (.executed false) (by rw [← stepped])
  rw [done] at same
  cases same
  exact ⟨handles 0x8 0x8F14 handled {} rfl, (executes 0x8F14 executed .none (word ▸ done)).1, followed⟩

end Step

end Machine
end ChipEight
