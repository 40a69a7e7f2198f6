/-
This file shows that no operation on a machine panics when its parts are plain data.
-/
import ChipEight.Bare.Operation
import ChipEight.Machine.History
import ChipEight.Proofs.Bare.Families

namespace ChipEight

def Forwarded.bare (forwarded : Forwarded Display) : Forwarded Bare.Frame where
  frame? := forwarded.frame?.map Display.frame
  beep := forwarded.beep

/-- The bare reply shows the plain data of the machine and of the frame. -/
def Reply.bare (reply : Reply) : Bare.Reply where
  bare := reply.machine.bare
  answer := reply.answer
  forwarded := reply.forwarded.bare

namespace Bare

section Memory

/-- Bytes that fit are written to consecutive cells. -/
theorem overwrite_cells (memory : Memory) (start : Nat) (bytes : List UInt8)
    (fits : start + bytes.length ≤ 4096) :
    overwrite memory.cells.toArray start bytes = (memory.writeAll start bytes).cells.toArray := by
  induction bytes generalizing memory start with
  | nil => rfl
  | cons byte rest inductionHypothesis =>
      simp only [List.length_cons] at fits
      have inside : start < 4096 := by omega
      rw [overwrite, Memory.writeAll, ← inductionHypothesis _ (start + 1) (by omega)]
      simp [Memory.write, Nat.mod_eq_of_lt inside, Array.setIfInBounds, inside]

/-- A copy behind the start of the program succeeds if the data fits. -/
theorem copy_cells (memory : Memory) (start : Nat) (bytes : List UInt8)
    (fits : start + bytes.length ≤ 4096) :
    copy memory.cells.toArray start bytes = .ok (memory.writeAll start bytes).cells.toArray := by
  simp [copy, sum_small start bytes.length (by omega), fits, overwrite_cells]

theorem initialMemory_eq : initialMemory = .ok Memory.initial.cells.toArray :=
  copy_cells ⟨Vector.replicate 4096 0⟩ Font.location Font.glyphs (by decide)

end Memory

section Setup

theorem blank_rows :
    Array.replicate Display.height (Array.replicate Display.width false) = Display.blank.frame := by
  apply Array.ext
  · simp [Display.frame, Display.height]
  · intro y _ _
    apply Array.ext
    · simp [Display.frame, Display.width]
    · intro x _ _
      simp [Display.frame, Display.pixel, Display.blank, BitVec.getMsb_eq_getLsb]

theorem initial_bare (config : Config) (source : Generator) :
    initial config source = .ok (Machine.initial config source).bare := by
  unfold initial Machine.initial Machine.bare
  simp only [initialMemory_eq, blank_rows, ← Cadence.ofPeriodThreshold, Vector.toArray_replicate]
  generalize Memory.initial = memory
  rfl

variable (machine : Machine)

theorem reset_bare : reset machine.bare = .ok ⟨⟩ machine.reset.bare := by
  simp only [reset, initialMemory_eq, bind_apply, check_ok, clearDisplay_bare, modify_apply]
  rfl

/-- An image fits behind the start of the program. -/
theorem load_bare (rom : Rom) :
    load rom.name rom.data machine.bare = .ok ⟨⟩ (machine.load rom).bare := by
  have fits := rom.fits
  have copied := copy_cells machine.reset.memory Memory.programStart rom.data
    (by simp only [Memory.programCapacity, Memory.size, Memory.programStart] at fits ⊢; omega)
  simp only [load, bind_apply, reset_bare, get_apply]
  rw [show machine.reset.bare.memory = machine.reset.memory.cells.toArray from rfl, copied]
  rfl

end Setup

section Steps

variable (machine : Machine)

theorem fetch_bare :
    fetch machine.bare =
      match machine.fetch with
      | .error fault => .error (.fault (.word fault)) machine.bare
      | .ok word => .ok word (machine.keepFetched word).bare := by
  have near := machine.counter.toNat_lt
  have size : machine.bare.memory.size = 4096 := by simp [Machine.bare]
  simp only [fetch, bind_apply, get_apply, counter_bare,
    sum_small machine.counter.toNat 1 (by omega), check_ok, ite_run]
  by_cases inside : machine.counter.toNat + 1 < 4096
  · have here : machine.counter.toNat < 4096 := by omega
    have first : item machine.bare.memory machine.counter.toNat =
        .ok (machine.memory.cells[machine.counter.toNat]) := by
      simp [item, Machine.bare, here]
    have second : item machine.bare.memory (machine.counter.toNat + 1) =
        .ok (machine.memory.cells[machine.counter.toNat + 1]) := by
      simp [item, Machine.bare, inside]
    simp [inside, size, Machine.fetch, Word.fetch, first, second]
    rfl
  · simp [inside, size, Machine.fetch, Word.fetch]

theorem tickTimers_bare :
    tickTimers machine.bare = .ok machine.beeps machine.tickTimers.bare := by
  have below := UInt32.lt_iff_toNat_lt.mp machine.cadence.below
  have small := machine.cadence.threshold.toNat_lt
  have counted : sum 0x100000000 machine.bare.cycle.toNat 1 = .ok (machine.cadence.cycle.toNat + 1) := by
    rw [sum, if_pos]
    · rfl
    · change machine.cadence.cycle.toNat + 1 < 0x100000000
      omega
  have next : UInt32.ofNat (machine.cadence.cycle.toNat + 1) = machine.cadence.cycle + 1 := by
    simp
  simp only [tickTimers, advanceCadence, bind_apply, get_apply, counted, check_ok, ite_run, next]
  by_cases due : machine.cadence.threshold ≤ machine.cadence.cycle + 1
  · have late : ¬ machine.cadence.cycle + 1 < machine.cadence.threshold := by
      simpa using due
    simp [Machine.beeps, Machine.tickTimers, Cadence.isDue, Cadence.advance, due, late,
      Machine.bare]
  · have early : machine.cadence.cycle + 1 < machine.cadence.threshold := by
      simpa using due
    simp [Machine.beeps, Machine.tickTimers, Cadence.isDue, Cadence.advance, due, early,
      Machine.bare]

theorem settle_bare (signal : Signal) :
    settle signal machine.bare =
      .ok (machine.settle signal).2 (machine.settle signal).1.bare := by
  simp only [settle, bind_apply, get_apply, ite_run]
  cases signal with
  | wait =>
      simp only [if_true, config_bare, tickTimers_bare, pure_apply, Machine.settle]
      split <;> rfl
  | none => simp [tickTimers_bare, Machine.settle]
  | draw => simp [tickTimers_bare, Machine.settle]

theorem step_bare : step machine.bare = machine.step.bare := by
  simp only [step, bind_apply, get_apply, ite_run, fetch_bare, Machine.step]
  by_cases loaded : machine.loaded
  · simp only [loaded_bare, loaded, if_true]
    cases machine.fetch with
    | error fault => rfl
    | ok word =>
        simp only [execute_bare, Machine.executeFetched]
        rcases (machine.keepFetched word).execute word with ⟨executed, _ | signal⟩
        · rfl
        · exact settle_bare executed signal
  · simp only [loaded_bare, loaded]
    rfl

theorem tick_bare :
    tick machine.bare =
      match machine.tick.result with
      | .ok step => .ok (step, machine.tick.forwarded.bare) machine.tick.machine.bare
      | .error fault => .error (.fault fault) machine.tick.machine.bare := by
  simp only [tick, bind_apply, step_bare, Machine.tick]
  rcases machine.step with ⟨stepped, fault | step⟩
  · rfl
  · by_cases dirty : stepped.dirty <;>
      simp [Attempt.bare, takeDirty, dirty, Forwarded.bare, Machine.bare, Machine.clearDirty]

end Steps

section Operations

variable (machine : Machine)

theorem setKey_bare (key : Nibble) (pressed : Bool) :
    setKey key.val pressed machine.bare = .ok ⟨⟩ (machine.setKey key pressed).bare := by
  have inside : Bare.key key.val = .ok key := dif_pos key.isLt
  simp only [setKey, bind_apply, get_apply, inside, check_ok]
  rfl

theorem toggleKey_bare (key : Nibble) :
    toggleKey key.val machine.bare = .ok ⟨⟩ (machine.toggleKey key).bare := by
  have inside : Bare.key key.val = .ok key := dif_pos key.isLt
  simp only [toggleKey, bind_apply, get_apply, inside, check_ok]
  rfl

/-- No operation panics, and each one does the same to the bare machine as to the machine. -/
theorem apply_bare (operation : Operation) :
    machine.bare.apply operation = .ok (machine.apply operation).bare := by
  unfold apply
  cases operation with
  | load name data =>
      simp only [act, answering, applyLoad, Machine.apply, Machine.applyLoad]
      cases Rom.ofData name data with
      | error fault => rfl
      | ok rom => simp only [bind_apply, load_bare]; rfl
  | loadFile files path =>
      simp only [act, answering, applyLoadFile, Machine.apply, Machine.applyLoadFile,
        Machine.loadFile]
      cases Rom.ofFile files path with
      | error fault => rfl
      | ok rom => simp only [bind_apply, load_bare]; rfl
  | step =>
      simp only [act, answering, bind_apply, step_bare, Machine.apply, Machine.applyStep]
      rcases machine.step with ⟨stepped, fault | step⟩ <;> rfl
  | tick =>
      simp only [act, bind_apply, tick_bare, Machine.apply, Machine.applyTick, Machine.tick]
      rcases machine.step with ⟨stepped, fault | step⟩ <;> rfl
  | execute word =>
      simp only [act, answering, bind_apply, execute_bare, Machine.apply, Machine.applyExecute]
      rcases machine.execute word with ⟨executed, fault | signal⟩ <;> rfl
  | handle family word =>
      simp only [act, answering, bind_apply, handle_bare, Machine.apply, Machine.applyHandle]
      rcases machine.handle family word with ⟨handled, fault | effect⟩ <;> rfl
  | advance move => rfl
  | setKeypad keypad => rfl
  | setKey key pressed => simp only [act, answering, bind_apply, setKey_bare]; rfl
  | toggleKey key => simp only [act, answering, bind_apply, toggleKey_bare]; rfl
  | setGenerator generator => rfl
  | takeDirty => rfl
  | reset => simp only [act, answering, bind_apply, reset_bare]; rfl

/-- No list of operations panics. -/
theorem replies_bare (operations : List Operation) :
    machine.bare.replies operations = .ok ((machine.replies operations).map ChipEight.Reply.bare) := by
  induction operations generalizing machine with
  | nil => rfl
  | cons operation rest inductionHypothesis =>
      have next := inductionHypothesis (machine.apply operation).machine
      simp only [replies, apply_bare, Machine.replies_cons, List.map_cons]
      rw [show (machine.apply operation).bare.bare = (machine.apply operation).machine.bare from rfl,
        next]

end Operations
end Bare
end ChipEight
