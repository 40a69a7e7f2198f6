/-
This file says where an instruction leaves the program counter, the stack and the display.
-/
import ChipEight.Proofs.Execution

namespace ChipEight

/-- Clearing and drawing mark the display as changed. -/
def Instruction.draws : Instruction → Bool
  | .clear | .draw _ _ _ => true
  | _ => false

namespace Machine

section Perform

variable (machine : Machine)

/-- A return goes on behind its call, and only a waiting instruction stays. -/
def performAdvance : Instruction → Advance
  | .leave => .jump (machine.stack.calls.headD 0 + Advance.wordSize)
  | .jump target | .call target => .jump target
  | .jumpFrom target => .jump (target + (machine.register 0).toUInt16)
  | .skipIfByte x byte => .skipIf (machine.register x == byte)
  | .skipUnlessByte x byte => .skipIf (machine.register x != byte)
  | .skipIfEqual x y => .skipIf (machine.register x == machine.register y)
  | .skipUnlessEqual x y => .skipIf (machine.register x != machine.register y)
  | .skipIfPressed x =>
      .skipIf (machine.keypad.isPressed? (machine.register x).toNat == some true)
  | .skipIfReleased x =>
      .skipIf (machine.keypad.isPressed? (machine.register x).toNat == some false)
  | .awaitKey _ => if machine.keypad.highest? = none then .stay else .next
  | _ => .next

/-- A call keeps its own address. -/
def performCalls : Instruction → List Word
  | .call _ => machine.counter :: machine.stack.calls
  | .leave => machine.stack.calls.tail
  | _ => machine.stack.calls

theorem performAdvance_leave :
    machine.performAdvance .leave = .jump (machine.stack.calls.headD 0 + Advance.wordSize) := rfl

theorem performAdvance_awaitKey (x : Nibble) :
    machine.performAdvance (.awaitKey x) =
      if machine.keypad.highest? = none then .stay else .next := rfl

theorem performCalls_leave : machine.performCalls .leave = machine.stack.calls.tail := rfl

def performDisplay : Instruction → Display
  | .clear => .blank
  | .draw x y height => (machine.draw x y height).display
  | _ => machine.display

/-- The effects of an instruction before the program counter moves. -/
structure Effects (machine : Machine) (instruction : Instruction) (performed : Machine)
    (effect : Effect) : Prop where
  advance : effect.advance = machine.performAdvance instruction
  counter : performed.counter = machine.counter
  calls : performed.stack.calls = machine.performCalls instruction
  display : performed.display = machine.performDisplay instruction
  dirty : performed.dirty = (instruction.draws || machine.dirty)

variable {machine} {instruction : Instruction} {performed : Machine} {effect : Effect}

theorem leave_effects (done : machine.perform .leave = ⟨performed, .ok effect⟩) :
    Effects machine .leave performed effect := by
  simp only [perform] at done
  cases outcome : machine.stack.pop with
  | error fault =>
      rw [outcome] at done
      cases done
  | ok popped =>
      obtain ⟨caller, stack⟩ := popped
      have shape := (CallStack.popOk _ _ _).mp outcome
      rw [outcome] at done
      cases done
      refine ⟨?_, rfl, ?_, rfl, rfl⟩
      · rw [performAdvance_leave, shape, List.headD_cons]
      · rw [performCalls_leave, shape, List.tail_cons]

theorem call_effects (target : Word)
    (done : machine.perform (.call target) = ⟨performed, .ok effect⟩) :
    Effects machine (.call target) performed effect := by
  simp only [perform] at done
  cases outcome : machine.stack.push machine.counter with
  | error fault =>
      rw [outcome] at done
      cases done
  | ok stack =>
      have shape := (CallStack.pushOk _ _ _).mp outcome
      rw [outcome] at done
      cases done
      exact ⟨rfl, rfl, shape, rfl, rfl⟩

theorem awaitKey_effects (x : Nibble)
    (done : machine.perform (.awaitKey x) = ⟨performed, .ok effect⟩) :
    Effects machine (.awaitKey x) performed effect := by
  simp only [perform] at done
  cases pressed : machine.keypad.highest? with
  | none =>
      rw [pressed] at done
      cases done
      exact ⟨by rw [performAdvance_awaitKey, if_pos pressed], rfl, rfl, rfl, rfl⟩
  | some key =>
      rw [pressed] at done
      cases done
      refine ⟨?_, rfl, rfl, rfl, rfl⟩
      rw [performAdvance_awaitKey, if_neg (by simp [pressed])]

theorem selectGlyph_effects (x : Nibble)
    (done : machine.perform (.selectGlyph x) = ⟨performed, .ok effect⟩) :
    Effects machine (.selectGlyph x) performed effect := by
  simp only [perform] at done
  split at done
  · cases done
  · cases done
    exact ⟨rfl, rfl, rfl, rfl, rfl⟩

theorem combine_effects (operator : Operator) (x y : Nibble)
    (done : machine.perform (.combine operator x y) = ⟨performed, .ok effect⟩) :
    Effects machine (.combine operator x y) performed effect := by
  cases done
  simp only [combine]
  split <;> exact ⟨rfl, rfl, rfl, rfl, rfl⟩

theorem loadRegisters_effects (last : Nibble)
    (done : machine.perform (.loadRegisters last) = ⟨performed, .ok effect⟩) :
    Effects machine (.loadRegisters last) performed effect := by
  cases done
  unfold loadRegisters
  exact ⟨rfl, rfl, rfl, rfl, rfl⟩

theorem perform_effects (done : machine.perform instruction = ⟨performed, .ok effect⟩) :
    Effects machine instruction performed effect := by
  cases instruction with
  | leave => exact leave_effects done
  | call target => exact call_effects target done
  | awaitKey x => exact awaitKey_effects x done
  | selectGlyph x => exact selectGlyph_effects x done
  | combine operator x y => exact combine_effects operator x y done
  | loadRegisters last => exact loadRegisters_effects last done
  -- The other instructions set single fields.
  | _ =>
      cases done
      exact ⟨rfl, rfl, rfl, rfl, rfl⟩

end Perform

section Step

variable (machine : Machine)

/-- The family either performs an instruction or leaves the machine alone. -/
theorem handle_effects (family : Nibble) (word : Word) :
    (∃ fault, machine.handle family word = ⟨machine, .error fault⟩) ∨
    (∃ instruction performed effect, Instruction.decode? family word = some instruction ∧
      machine.handle family word = ⟨performed, .ok effect⟩ ∧
      Effects machine instruction performed effect) := by
  obtain ⟨fault, -, failed⟩ | ⟨instruction, performed, move, -, decoded, done, -⟩ :=
    machine.handle_cases family word
  · exact .inl ⟨fault, failed⟩
  · have same := done
    simp only [handle, decoded] at same
    exact .inr ⟨instruction, performed, _, decoded, done, perform_effects same⟩

/-- The program counter has moved, and nothing has touched the stack and the display since. -/
structure Moved (machine : Machine) (instruction : Instruction) (moved : Machine) : Prop where
  counter : moved.counter = (machine.performAdvance instruction).apply machine.counter
  calls : moved.stack.calls = machine.performCalls instruction
  display : moved.display = machine.performDisplay instruction
  dirty : moved.dirty = (instruction.draws || machine.dirty)

theorem Effects.moved {machine performed : Machine} {instruction : Instruction} {effect : Effect}
    (effects : Effects machine instruction performed effect) :
    Moved machine instruction (performed.advance effect.advance) where
  counter := by rw [← effects.advance, ← effects.counter]; rfl
  calls := effects.calls
  display := effects.display
  dirty := effects.dirty

/-- The timers leave all else alone. -/
theorem Moved.settle {machine moved : Machine} {instruction : Instruction}
    (kept : Moved machine instruction moved) (signal : Signal) :
    Moved machine instruction (moved.settle signal).1 := by
  have ticked : Moved machine instruction moved.tickTimers := by
    unfold tickTimers
    split <;> exact ⟨kept.counter, kept.calls, kept.display, kept.dirty⟩
  cases signal with
  | none | draw => exact ticked
  | wait =>
      by_cases ticking : moved.config.tickWhileBlocked
      · simpa only [Machine.settle, if_pos ticking] using ticked
      · simpa only [Machine.settle, if_neg ticking] using kept

/-- No instruction reads the word that was fetched. -/
theorem Moved.of_keepFetched {machine moved : Machine} {word : Word} {instruction : Instruction}
    (kept : Moved (machine.keepFetched word) instruction moved) :
    Moved machine instruction moved := by
  obtain ⟨counter, calls, display, dirty⟩ := kept
  refine ⟨counter.trans ?_, calls.trans ?_, display.trans ?_, dirty⟩
  · cases instruction <;> rfl
  · cases instruction <;> rfl
  · cases instruction <;> rfl

/-- A word moves the program counter after its instruction or leaves the machine alone. -/
theorem execute_moved (word : Word) :
    (∃ fault, machine.execute word = ⟨machine, .error fault⟩) ∨
    (∃ instruction moved signal, Instruction.decode? word.family word = some instruction ∧
      machine.execute word = ⟨moved, .ok signal⟩ ∧ Moved machine instruction moved) := by
  obtain ⟨fault, failed⟩ | ⟨instruction, performed, effect, decoded, done, effects⟩ :=
    machine.handle_effects word.family word
  · exact .inl ⟨fault, by rw [execute, failed]⟩
  · exact .inr ⟨instruction, _, _, decoded, by rw [execute, done], effects.moved⟩

/-- The instruction that the next step executes, if there is one at the program counter. -/
def instruction? : Option Instruction :=
  if machine.loaded then
    match machine.fetch with
    | .ok word => Instruction.decode? word.family word
    | .error _ => none
  else
    none

theorem instruction?_eq_some_iff (instruction : Instruction) :
    machine.instruction? = some instruction ↔
      machine.loaded = true ∧ ∃ word, machine.fetch = .ok word ∧
        Instruction.decode? word.family word = some instruction := by
  unfold instruction?
  cases machine.fetch <;> simp

/-- A step fails exactly if its instruction does. -/
theorem stepFault?_instruction {instruction : Instruction}
    (next : machine.instruction? = some instruction) :
    machine.stepFault? = machine.performFault? instruction := by
  obtain ⟨loaded, word, fetched, decoded⟩ := (machine.instruction?_eq_some_iff _).mp next
  simp only [stepFault?, loaded, if_true, fetched, executeFault?, handleFault?, decoded]

/-- A step changes at most the fetched word and fails, or it executes the instruction at the
program counter. -/
theorem step_moved :
    (∃ fault word, machine.step = ⟨machine.keepFetched word, .error fault⟩) ∨
    (∃ instruction moved step, machine.instruction? = some instruction ∧
      machine.step = ⟨moved, .ok step⟩ ∧ Moved machine instruction moved) := by
  by_cases loaded : machine.loaded
  · cases fetched : machine.fetch with
    | error fault =>
        refine .inl ⟨.word fault, machine.fetched, ?_⟩
        simp only [step, loaded, if_true, fetched]
        rfl
    | ok word =>
        obtain ⟨fault, failed⟩ | ⟨instruction, moved, signal, decoded, done, kept⟩ :=
          (machine.keepFetched word).execute_moved word
        · refine .inl ⟨fault, word, ?_⟩
          simp only [step, loaded, if_true, fetched, executeFetched, failed]
        · have next := (machine.instruction?_eq_some_iff _).mpr ⟨loaded, word, fetched, decoded⟩
          refine .inr ⟨instruction, (moved.settle signal).1, (moved.settle signal).2, next, ?_, ?_⟩
          · simp only [step, loaded, if_true, fetched, executeFetched, done]
          · exact kept.of_keepFetched.settle signal
  · refine .inl ⟨.unloaded, machine.fetched, ?_⟩
    simp only [step, loaded]
    rfl

end Step

end Machine
end ChipEight
