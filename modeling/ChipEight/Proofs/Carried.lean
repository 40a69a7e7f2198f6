/-
This file says which word an operation executes, and that the operation then only moves the program
counter and counts the timers down.
-/
import ChipEight.Proofs.Frame

namespace ChipEight.Machine

section Words

variable (machine : Machine)

/-- The word that a step fetches, if it fetches one. -/
def fetchedWord? : Option Word :=
  if machine.loaded then machine.fetch.toOption else none

/-- The word that an operation executes, with the family that handles it. -/
def wordOf? : Operation → Option (Nibble × Word)
  | .step | .tick => machine.fetchedWord?.map fun word => (word.family, word)
  | .execute word => some (word.family, word)
  | .handle family word => some (family, word)
  | _ => none

/-- The words keep the order of the operations that execute them. -/
def words (machine : Machine) : List Operation → List (Nibble × Word)
  | [] => []
  | operation :: rest =>
      (machine.wordOf? operation).toList ++ (machine.apply operation).machine.words rest

theorem fetchedWord?_eq_some_iff (word : Word) :
    machine.fetchedWord? = some word ↔ machine.loaded = true ∧ machine.fetch = .ok word := by
  unfold fetchedWord?
  cases machine.fetch <;> simp [Except.toOption]

theorem wordOf?_step (operation : Operation) (stepping : operation.isStep) :
    machine.wordOf? operation = machine.fetchedWord?.map fun word => (word.family, word) := by
  cases operation with
  | step | tick => rfl
  | _ => cases stepping

end Words

/-- The machine is the one that the family left behind, but for the parts that follow the word. -/
structure Carried (handled after : Machine) : Prop where
  shape : after = { handled with
    counter := after.counter
    fetched := after.fetched
    cadence := after.cadence
    delay := after.delay
    sound := after.sound
    dirty := after.dirty }

section Carried

theorem Carried.refl (machine : Machine) : Carried machine machine := ⟨rfl⟩

theorem Carried.trans {first second third : Machine} (left : Carried first second)
    (right : Carried second third) : Carried first third := by
  constructor
  rw [right.shape, left.shape]

variable (machine : Machine)

theorem settle_carried (signal : Signal) : Carried machine (machine.settle signal).1 := by
  obtain ⟨step, settled, -⟩ | ⟨step, settled, -⟩ := machine.settle_cases signal
  · rw [settled]
    exact .refl machine
  · rw [settled, tickTimers_eq]
    exact ⟨rfl⟩

theorem execute_carried (word : Word) :
    Carried (machine.handle word.family word).machine (machine.execute word).machine := by
  unfold execute
  rcases machine.handle word.family word with ⟨handled, fault | effect⟩
  · exact .refl handled
  · exact ⟨rfl⟩

theorem step_carried {word : Word} (fetched : machine.fetchedWord? = some word) :
    Carried (machine.handle word.family word).machine machine.step.machine := by
  obtain ⟨loaded, found⟩ := (machine.fetchedWord?_eq_some_iff word).mp fetched
  refine (machine.execute_carried word).trans ?_
  simp only [step, loaded, if_true, found, executeFetched, execute_keepFetched]
  rcases machine.execute word with ⟨executed, fault | signal⟩
  · exact ⟨rfl⟩
  · have kept : Carried executed (executed.keepFetched word) := ⟨rfl⟩
    exact kept.trans ((executed.keepFetched word).settle_carried signal)

theorem step_wordless (none : machine.fetchedWord? = none) :
    machine.step.machine = machine := by
  unfold fetchedWord? at none
  by_cases loaded : machine.loaded
  · cases fetched : machine.fetch with
    | error fault => simp only [step, loaded, if_true, fetched]
    | ok word => simp [loaded, fetched, Except.toOption] at none
  · simp only [step, loaded]
    rfl

/-- An operation that executes a word carries on what the family made of it. -/
theorem apply_carried {operation : Operation} {family : Nibble} {word : Word}
    (executed : machine.wordOf? operation = some (family, word)) :
    Carried (machine.handle family word).machine (machine.apply operation).machine := by
  by_cases stepping : operation.isStep
  · rw [machine.wordOf?_step operation stepping, Option.map_eq_some_iff] at executed
    obtain ⟨found, fetched, same⟩ := executed
    obtain ⟨rfl, rfl⟩ := Prod.mk.inj same
    obtain ⟨-, dirty, after⟩ := machine.apply_step operation stepping
    rw [after]
    exact (machine.step_carried fetched).trans ⟨rfl⟩
  · cases operation with
    | execute other =>
        obtain ⟨rfl, rfl⟩ := Prod.mk.inj (Option.some.inj executed)
        exact machine.execute_carried other
    | handle other found =>
        obtain ⟨rfl, rfl⟩ := Prod.mk.inj (Option.some.inj executed)
        exact .refl _
    | step | tick => exact absurd rfl stepping
    | _ => cases executed

/-- A step or a tick without a word changes nothing. -/
theorem apply_wordless {operation : Operation} (stepping : operation.isStep)
    (none : machine.wordOf? operation = none) : (machine.apply operation).machine = machine := by
  rw [machine.wordOf?_step operation stepping, Option.map_eq_none_iff] at none
  have still := machine.step_wordless none
  obtain ⟨fault, word, failed⟩ | ⟨instruction, moved, step, next, -⟩ := machine.step_moved
  · cases operation with
    | step => exact still
    | tick =>
        simp only [apply, applyTick, tick, failed]
        rwa [failed] at still
    | _ => cases stepping
  · obtain ⟨loaded, word, fetched, -⟩ := (machine.instruction?_eq_some_iff _).mp next
    rw [(machine.fetchedWord?_eq_some_iff word).mpr ⟨loaded, fetched⟩] at none
    cases none

end Carried

end ChipEight.Machine
