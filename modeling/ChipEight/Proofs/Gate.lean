/-
This file shows that the last load event of a history decides whether the machine executes.
-/
import Mathlib.Data.List.Induction
import ChipEight.Proofs.Bare.Operations
import ChipEight.Proofs.Carried

namespace ChipEight

/-- No path leads to a file of an empty tree. -/
theorem FileTree.read_empty (path : String) (data : List UInt8) :
    empty.read path ≠ .ok data := by
  have unlisted (place : Place) (contents : List UInt8) :
      empty.node? place ≠ some (.file contents) := by
    unfold node?
    split <;> simp [empty]
  unfold read
  cases components path with
  | error fault => simp
  | ok names =>
      cases reached : empty.walk (start path) names with
      | error fault => simp [reached]
      | ok place =>
          simp only [reached]
          cases found : empty.node? place with
          | none => simp
          | some node =>
              cases node with
              | file contents => exact absurd found (unlisted place contents)
              | directory | barred => simp [Node.contents]

namespace Rom

/-- Data of this size makes a program image. -/
def Fits (data : List UInt8) : Prop := 1 ≤ data.length ∧ data.length ≤ 3584

/-- The file can be read, and its data makes a program image. -/
def FileFits (files : FileTree) (path : String) : Prop :=
  ∃ data, files.read path = .ok data ∧ Fits data

theorem ofData_cases (name : String) (data : List UInt8) :
    (Fits data ∧ ∃ rom, ofData name data = .ok rom) ∨
      (¬ Fits data ∧ ∃ fault, ofData name data = .error fault) := by
  unfold ofData
  by_cases empty : data = []
  · exact .inr ⟨by simp [Fits, empty], _, dif_pos empty⟩
  · have filled : 1 ≤ data.length := List.length_pos_iff.mpr empty
    rw [dif_neg empty]
    by_cases fits : data.length ≤ Memory.programCapacity
    · exact .inl ⟨⟨filled, fits⟩, _, dif_pos fits⟩
    · exact .inr ⟨fun fitting => fits fitting.2, _, dif_neg fits⟩

theorem ofFile_cases (files : FileTree) (path : String) :
    (FileFits files path ∧ ∃ rom, ofFile files path = .ok rom) ∨
      (¬ FileFits files path ∧ ∃ fault, ofFile files path = .error fault) := by
  unfold ofFile FileFits
  cases files.read path with
  | error fault => exact .inr ⟨by simp, _, rfl⟩
  | ok data =>
      obtain ⟨fits, made⟩ | ⟨misfits, refused⟩ := ofData_cases (FileTree.fileName path) data
      · exact .inl ⟨⟨data, rfl, fits⟩, made⟩
      · refine .inr ⟨fun ⟨_, same, fits⟩ => ?_, refused⟩
        cases same
        exact misfits fits

end Rom

namespace Operation

/-- Loading opens the gate, also from a file that could be read. -/
def Opens : Operation → Prop
  | .load _ data => Rom.Fits data
  | .loadFile files path => Rom.FileFits files path
  | _ => False

/-- A reset closes the gate, and so does a file that is refused. Refused data is not a load. -/
def Decides : Operation → Prop
  | .load _ data => Rom.Fits data
  | .loadFile _ _ | .reset => True
  | _ => False

/-- The last operation that decides over the gate opens it. -/
def LastOpens (operations : List Operation) : Prop :=
  ∃ earlier operation later, operations = earlier ++ operation :: later ∧
    operation.Opens ∧ ∀ other ∈ later, ¬ other.Decides

theorem lastOpens_nil : ¬ LastOpens [] := by
  rintro ⟨earlier, operation, later, shape, -⟩
  cases earlier <;> cases shape

theorem lastOpens_append (operations : List Operation) (last : Operation) :
    LastOpens (operations ++ [last]) ↔
      last.Opens ∨ ¬ last.Decides ∧ LastOpens operations := by
  constructor
  · rintro ⟨earlier, operation, later, shape, opens, quiet⟩
    rcases List.eq_nil_or_concat later with rfl | ⟨before, final, rfl⟩
    · obtain ⟨-, same⟩ := List.append_inj' shape rfl
      cases same
      exact .inl opens
    · rw [List.concat_eq_append] at shape quiet
      rw [← List.cons_append, ← List.append_assoc] at shape
      obtain ⟨front, same⟩ := List.append_inj' shape rfl
      cases same
      rw [List.forall_mem_append, List.forall_mem_singleton] at quiet
      exact .inr ⟨quiet.2, earlier, operation, before, front, opens, quiet.1⟩
  · rintro (opens | ⟨undecided, earlier, operation, later, rfl, opens, quiet⟩)
    · exact ⟨operations, last, [], rfl, opens, by simp⟩
    · refine ⟨earlier, operation, later ++ [last], by simp, opens, ?_⟩
      rw [List.forall_mem_append, List.forall_mem_singleton]
      exact ⟨quiet, undecided⟩

end Operation

namespace Machine

section Gate

variable (machine : Machine)

theorem handle_loaded (family : Nibble) (word : Word) :
    (machine.handle family word).machine.loaded = machine.loaded := by
  obtain ⟨fault, -, failed⟩ | ⟨instruction, handled, move, -, -, done, performed⟩ :=
    machine.handle_cases family word
  · rw [failed]
  · rw [done]
    exact performed.loaded

/-- Executing a word never moves the gate, whether it succeeds or not. -/
theorem apply_loaded_of_word {operation : Operation} {family : Nibble} {word : Word}
    (executed : machine.wordOf? operation = some (family, word)) :
    (machine.apply operation).machine.loaded = machine.loaded := by
  rw [(machine.apply_carried executed).shape]
  exact machine.handle_loaded family word

theorem step_loaded (operation : Operation) (stepping : operation.isStep) :
    (machine.apply operation).machine.loaded = machine.loaded := by
  cases executed : machine.wordOf? operation with
  | some pair => exact machine.apply_loaded_of_word executed
  | none => rw [machine.apply_wordless stepping executed]

theorem apply_loaded (operation : Operation) :
    (machine.apply operation).machine.loaded = true ↔
      operation.Opens ∨ ¬ operation.Decides ∧ machine.loaded = true := by
  have undecided (kept : (machine.apply operation).machine.loaded = machine.loaded) :
      (machine.apply operation).machine.loaded = true ↔
        False ∨ ¬ False ∧ machine.loaded = true := by
    rw [kept]
    tauto
  cases operation with
  | load name data =>
      simp only [apply, applyLoad, Operation.Opens, Operation.Decides]
      obtain ⟨fits, rom, made⟩ | ⟨misfits, fault, refused⟩ := Rom.ofData_cases name data
      · simp [made, fits, load]
      · simp [refused, misfits]
  | loadFile files path =>
      simp only [apply, applyLoadFile, loadFile, Operation.Opens, Operation.Decides]
      obtain ⟨fits, rom, made⟩ | ⟨misfits, fault, refused⟩ := Rom.ofFile_cases files path
      · simp [made, fits, load]
      · simp [refused, misfits, unload]
  | reset => simp [apply, reset, Operation.Opens, Operation.Decides]
  | step => exact undecided (machine.step_loaded .step rfl)
  | tick => exact undecided (machine.step_loaded .tick rfl)
  | execute word => exact undecided (machine.apply_loaded_of_word rfl)
  | handle family word => exact undecided (machine.apply_loaded_of_word rfl)
  | advance | setKeypad | setKey | toggleKey | setGenerator | takeDirty => exact undecided rfl

theorem after_loaded (operations : List Operation) (empty : machine.loaded = false) :
    (machine.after operations).loaded = true ↔ Operation.LastOpens operations := by
  induction operations using List.reverseRecOn with
  | nil => simp [empty, Operation.lastOpens_nil]
  | append_singleton operations last inductionHypothesis =>
      rw [after_append, after_cons, after_nil, apply_loaded, Operation.lastOpens_append,
        inductionHypothesis]

end Gate

section Closed

/-- A machine without a program refuses to run, a refused file takes the program away, and refused
data does not. None of them changes anything else, also not where the machine works in place. -/
structure Gated (machine : Machine) : Prop where
  steps : machine.loaded = false →
    machine.apply .step =
      { machine := machine, answer := .failed .unloaded, events := [.unloaded] } ∧
    Bare.step machine.bare = .error (.fault .unloaded) machine.bare
  ticks : machine.loaded = false →
    machine.apply .tick =
      { machine := machine, answer := .failed .unloaded, events := [.unloaded] } ∧
    Bare.tick machine.bare = .error (.fault .unloaded) machine.bare
  data (name : String) (data : List UInt8) : ¬ Rom.Fits data → ∃ fault,
    machine.apply (.load name data) = { machine := machine, answer := .refused fault } ∧
    Bare.applyLoad name data machine.bare = .ok (.refused fault) machine.bare
  file (files : FileTree) (path : String) : ¬ Rom.FileFits files path → ∃ fault,
    machine.apply (.loadFile files path) =
      { machine := { machine with loaded := false }, answer := .refused fault } ∧
    Bare.applyLoadFile files path machine.bare =
      .ok (.refused fault) { machine.bare with loaded := false }
  /-- A reading can fail for any reason, and the answer tells it. -/
  unread (fault : InputFault) : ∃ files path, files.read path = .error fault ∧
    machine.apply (.loadFile files path) =
      { machine := { machine with loaded := false }, answer := .refused (.unreadable fault) }

variable (machine : Machine)

theorem step_unloaded (empty : machine.loaded = false) :
    machine.step = ⟨machine, .error .unloaded⟩ := by
  rw [step, empty]
  rfl

theorem tick_unloaded (empty : machine.loaded = false) :
    machine.tick = { machine := machine, result := .error .unloaded } := by
  rw [tick, machine.step_unloaded empty]

theorem stepEvents_unloaded (empty : machine.loaded = false) (outcome : Except Fault Step) :
    machine.stepEvents outcome = [.unloaded] := by
  rw [stepEvents, empty]
  rfl

theorem gated : Gated machine where
  steps empty := by
    refine ⟨?_, ?_⟩
    · simp only [apply, applyStep, machine.step_unloaded empty, machine.stepEvents_unloaded empty]
      rfl
    · rw [Bare.step_bare, machine.step_unloaded empty]
      rfl
  ticks empty := by
    refine ⟨?_, ?_⟩
    · simp only [apply, applyTick, machine.tick_unloaded empty, machine.stepEvents_unloaded empty]
      rfl
    · rw [Bare.tick_bare, machine.tick_unloaded empty]
  data name data misfits := by
    obtain ⟨fits, -⟩ | ⟨-, fault, refused⟩ := Rom.ofData_cases name data
    · exact absurd fits misfits
    · refine ⟨fault, ?_, ?_⟩
      · simp only [apply, applyLoad, refused]
      · simp only [Bare.applyLoad, refused, Bare.pure_apply]
  file files path misfits := by
    obtain ⟨fits, -⟩ | ⟨-, fault, refused⟩ := Rom.ofFile_cases files path
    · exact absurd fits misfits
    · refine ⟨fault, ?_, ?_⟩
      · simp only [apply, applyLoadFile, loadFile, refused]
        rfl
      · simp only [Bare.applyLoadFile, refused]
        rfl
  unread fault := by
    obtain ⟨files, failed⟩ := FileTree.exists_read (.error fault)
    refine ⟨files, "game", failed, ?_⟩
    simp only [apply, applyLoadFile, loadFile, Rom.ofFile, failed, Rom.ofBytes]
    rfl

/-- The gate is open exactly when the last of all loads and resets was a load that succeeded. -/
theorem gate_decided (config : Config) (source : Generator) (operations : List Operation) :
    let machine := (initial config source).after operations
    (machine.loaded = true ↔ Operation.LastOpens operations) ∧ Gated machine :=
  ⟨(initial config source).after_loaded operations rfl, gated _⟩

/-- A file that is missing closes the gate, and empty data does not open it again. -/
theorem gate_decided_missing :
    let first := [Operation.load "" [0x12, 0x00], .step]
    let operations := first ++ [.loadFile .empty "game", .load "" []]
    let machine := (initial {} (.arithmetic 0 1)).after operations
    Operation.LastOpens first ∧ ¬ Operation.LastOpens operations ∧
      (machine.apply .tick).machine = machine := by
  intro first operations machine
  obtain ⟨before, gated⟩ := gate_decided {} (.arithmetic 0 1) first
  obtain ⟨after, closed⟩ := gate_decided {} (.arithmetic 0 1) operations
  obtain ⟨fault, refused, -⟩ := gated.file .empty "game" fun ⟨data, read, _⟩ =>
    FileTree.read_empty "game" data read
  have empty : machine.loaded = false := by
    simp only [machine, operations, after_append, after_cons, after_nil, refused]
    rfl
  refine ⟨before.mp (by decide +kernel), fun opens => ?_, by rw [(closed.ticks empty).1]⟩
  rw [← after] at opens
  exact absurd (opens.symm.trans empty) (by decide)

end Closed

end Machine
end ChipEight
