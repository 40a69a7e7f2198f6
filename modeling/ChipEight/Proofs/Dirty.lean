/-
This file compares the display with the frame that was taken of it last, and says when the mark of a
changed display tells them apart.
-/
import Mathlib.Tactic.ByContra
import ChipEight.Machine.History
import ChipEight.Proofs.Effect

namespace ChipEight

section Change

/-- A reset erases the display, and so does a load that succeeds. -/
def Operation.erases : Operation → Bool
  | .reset => true
  | .load name data => (Rom.ofData name data).isOk
  | .loadFile files path => (Rom.ofFile files path).isOk
  | _ => false

namespace Machine

variable (machine : Machine)

/-- The operation executes an instruction that clears the display or draws on it. -/
def draws : Operation → Bool
  | .step | .tick => machine.step.result.isOk && machine.instruction?.any Instruction.draws
  | .execute word =>
      (machine.execute word).result.isOk &&
        (Instruction.decode? word.family word).any Instruction.draws
  | .handle family word =>
      (machine.handle family word).result.isOk &&
        (Instruction.decode? family word).any Instruction.draws
  | _ => false

/-- A successful tick takes the mark of a changed display after its step. -/
def takes : Operation → Bool
  | .takeDirty => true
  | .tick => machine.step.result.isOk
  | _ => false

/-- The machine of the operation before the mark is taken. -/
def shown : Operation → Machine
  | .takeDirty => machine
  | .tick => machine.step.machine
  | operation => (machine.apply operation).machine

theorem apply_shown (operation : Operation) :
    (machine.apply operation).machine =
      if machine.takes operation then (machine.shown operation).clearDirty
      else machine.shown operation := by
  cases operation with
  | tick =>
      change machine.tick.machine =
        if machine.step.result.isOk then machine.step.machine.clearDirty else machine.step.machine
      rw [tick]
      rcases machine.step with ⟨stepped, fault | step⟩ <;> rfl
  | _ => rfl

/-- A display that is not drawn on stays, and drawing sets the mark. -/
structure Marked (before after : Machine) (drawing : Bool) : Prop where
  dirty : after.dirty = (drawing || before.dirty)
  display : drawing = false → after.display = before.display

variable {machine}

theorem Marked.of_instruction {after : Machine} {instruction : Instruction}
    (dirty : after.dirty = (instruction.draws || machine.dirty))
    (display : after.display = machine.performDisplay instruction) :
    Marked machine after instruction.draws where
  dirty := dirty
  display := by
    intro other
    rw [display]
    cases instruction with
    | clear | draw => cases other
    | _ => rfl

theorem Marked.of_same {after : Machine} (dirty : after.dirty = machine.dirty)
    (display : after.display = machine.display) : Marked machine after false :=
  ⟨dirty, fun _ => display⟩

variable (machine)

theorem step_marked (operation : Operation) (stepping : operation.isStep) :
    Marked machine machine.step.machine (machine.draws operation) := by
  have drawing : machine.draws operation =
      (machine.step.result.isOk && machine.instruction?.any Instruction.draws) := by
    cases operation with
    | step | tick => rfl
    | _ => cases stepping
  rw [drawing]
  obtain ⟨fault, word, failed⟩ | ⟨instruction, moved, step, next, done, kept⟩ := machine.step_moved
  · rw [failed]
    exact .of_same rfl rfl
  · rw [done, next]
    exact .of_instruction kept.dirty kept.display

theorem execute_marked (word : Word) :
    Marked machine (machine.execute word).machine (machine.draws (.execute word)) := by
  rw [draws]
  obtain ⟨fault, failed⟩ | ⟨instruction, moved, signal, decoded, done, kept⟩ :=
    machine.execute_moved word
  · rw [failed]
    exact .of_same rfl rfl
  · rw [done, decoded]
    exact .of_instruction kept.dirty kept.display

theorem handle_marked (family : Nibble) (word : Word) :
    Marked machine (machine.handle family word).machine (machine.draws (.handle family word)) := by
  rw [draws]
  obtain ⟨fault, failed⟩ | ⟨instruction, performed, effect, decoded, done, effects⟩ :=
    machine.handle_effects family word
  · rw [failed]
    exact .of_same rfl rfl
  · rw [done, decoded]
    exact .of_instruction effects.dirty effects.display

/-- Erasing clears the mark along with the display, and nothing else hides a change. -/
theorem shown_cases (operation : Operation) :
    (operation.erases = true ∧ (machine.shown operation).display = .blank ∧
      (machine.shown operation).dirty = false) ∨
    (operation.erases = false ∧
      Marked machine (machine.shown operation) (machine.draws operation)) := by
  cases operation with
  | reset => exact .inl ⟨rfl, rfl, rfl⟩
  | load name data =>
      simp only [shown, apply, applyLoad, Operation.erases, draws]
      cases Rom.ofData name data with
      | ok rom => exact .inl ⟨rfl, rfl, rfl⟩
      | error fault => exact .inr ⟨rfl, .of_same rfl rfl⟩
  | loadFile files path =>
      simp only [shown, apply, applyLoadFile, loadFile, Operation.erases, draws]
      cases Rom.ofFile files path with
      | ok rom => exact .inl ⟨rfl, rfl, rfl⟩
      | error fault => exact .inr ⟨rfl, .of_same rfl rfl⟩
  | step => exact .inr ⟨rfl, machine.step_marked .step rfl⟩
  | tick => exact .inr ⟨rfl, machine.step_marked .tick rfl⟩
  | execute word => exact .inr ⟨rfl, machine.execute_marked word⟩
  | handle family word => exact .inr ⟨rfl, machine.handle_marked family word⟩
  | advance | setKeypad | setKey | toggleKey | setGenerator | takeDirty =>
      exact .inr ⟨rfl, .of_same rfl rfl⟩

end Machine

end Change

/-- A viewer shows the frame that it took last. -/
structure Viewer where
  frame : Display := .blank
  /-- The display was erased since, and nothing was drawn after that. -/
  erased : Bool := false

namespace Viewer

section Watch

variable (eager : Bool) (viewer : Viewer) (machine : Machine)

/-- Without a new frame, the viewer only learns whether the display was erased. -/
def wait (operation : Operation) : Viewer :=
  { viewer with erased := operation.erases || (viewer.erased && !machine.draws operation) }

/-- An eager viewer takes a frame whenever the mark is taken; another one only if it was set. -/
def take : Viewer :=
  if eager || machine.dirty then { frame := machine.display } else viewer

def watch (operation : Operation) : Viewer :=
  if machine.takes operation then
    (viewer.wait machine operation).take eager (machine.shown operation)
  else
    viewer.wait machine operation

/-- The viewer watches the operations one after another. -/
def watchAll (viewer : Viewer) (machine : Machine) : List Operation → Viewer
  | [] => viewer
  | operation :: rest =>
      (viewer.watch eager machine operation).watchAll (machine.apply operation).machine rest

/-- The mark tells the display from the frame, but not behind an erasure. -/
structure Follows (viewer : Viewer) (machine : Machine) : Prop where
  erased : viewer.erased = true → machine.display = .blank ∧ machine.dirty = false
  current : viewer.erased = false → machine.dirty = false → machine.display = viewer.frame

variable {viewer machine}

theorem Follows.wait (follows : viewer.Follows machine) (operation : Operation) :
    (viewer.wait machine operation).Follows (machine.shown operation) := by
  obtain ⟨erases, blank, clean⟩ | ⟨keeps, marked⟩ := machine.shown_cases operation
  · exact ⟨fun _ => ⟨blank, clean⟩, by simp [Viewer.wait, erases]⟩
  · simp only [Viewer.wait, keeps, Bool.false_or]
    -- A drawing sets the mark, and otherwise the viewer waits as before.
    cases drawing : machine.draws operation with
    | true =>
        have marks := marked.dirty
        rw [drawing, Bool.true_or] at marks
        exact ⟨by simp, by simp [marks]⟩
    | false =>
        have same := marked.dirty
        rw [drawing, Bool.false_or] at same
        rw [Bool.not_false, Bool.and_true]
        constructor
        · rw [same, marked.display drawing]
          exact follows.erased
        · rw [same, marked.display drawing]
          exact follows.current

theorem Follows.take (follows : viewer.Follows machine) :
    (viewer.take eager machine).Follows machine.clearDirty := by
  rw [Viewer.take]
  split
  · exact ⟨by simp, fun _ _ => rfl⟩
  · rename_i skipped
    obtain ⟨-, clean⟩ := Bool.or_eq_false_iff.mp (Bool.eq_false_iff.mpr skipped)
    exact ⟨fun erased => ⟨(follows.erased erased).1, rfl⟩, fun kept _ => follows.current kept clean⟩

theorem Follows.watch (follows : viewer.Follows machine) (operation : Operation) :
    (viewer.watch eager machine operation).Follows (machine.apply operation).machine := by
  rw [Viewer.watch, machine.apply_shown]
  split
  · exact (follows.wait operation).take eager
  · exact follows.wait operation

theorem Follows.watchAll (follows : viewer.Follows machine) (operations : List Operation) :
    (viewer.watchAll eager machine operations).Follows (machine.after operations) := by
  induction operations generalizing viewer machine with
  | nil => exact follows
  | cons operation rest inductionHypothesis =>
      exact inductionHypothesis (follows.watch eager operation)

end Watch

end Viewer

namespace Machine

section Shown

/-- Every change against the frame is marked exactly if the display was not erased behind a frame
that shows something. -/
theorem changes_marked_iff (eager : Bool) (config : Config) (source : Generator)
    (operations : List Operation) :
    let machine := (initial config source).after operations
    let viewer := Viewer.watchAll eager {} (initial config source) operations
    (machine.display ≠ viewer.frame → machine.dirty = true) ↔
      (viewer.erased = true → viewer.frame = .blank) := by
  intro machine viewer
  have start : Viewer.Follows {} (initial config source) := ⟨by simp, fun _ _ => rfl⟩
  have follows : viewer.Follows machine := start.watchAll eager operations
  constructor
  · intro marked erased
    -- Behind an erasure the display is blank and unmarked, so only a blank frame agrees with it.
    obtain ⟨blank, clean⟩ := follows.erased erased
    by_contra lit
    rw [blank, clean] at marked
    exact Bool.false_ne_true (marked (Ne.symm lit))
  · intro unlit changed
    by_contra unmarked
    rw [Bool.not_eq_true] at unmarked
    cases erased : viewer.erased with
    | true => exact changed ((follows.erased erased).1.trans (unlit erased).symm)
    | false => exact changed (follows.current erased unmarked)

/-- A reset erases a glyph that every viewer goes on to show. -/
theorem changes_marked_missed :
    let start := initial {} (.arithmetic 0 1)
    let operations := [Operation.execute 0xD005, .takeDirty, .reset]
    (start.after operations).dirty = false ∧ ∀ eager,
      (start.after operations).display ≠ (Viewer.watchAll eager {} start operations).frame := by
  intro start operations
  have apart : ∀ eager, (start.after operations).display.pixel 0 0 ≠
      (Viewer.watchAll eager {} start operations).frame.pixel 0 0 := by
    decide +kernel
  exact ⟨by decide +kernel, fun eager same => apart eager (congrArg (Display.pixel · 0 0) same)⟩

end Shown

end Machine
end ChipEight
