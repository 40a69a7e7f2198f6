/-
This file shows that keys and random bytes reach a machine only through the instructions that ask
for them.
-/
import ChipEight.Proofs.Lockstep

namespace ChipEight

namespace Instruction

/-- Two skips look at a key, and one instruction waits for any key. -/
def asksKeys : Instruction → Bool
  | .skipIfPressed _ | .skipIfReleased _ | .awaitKey _ => true
  | _ => false

/-- A random byte that is masked to zero tells nothing. -/
def revealsRandom : Instruction → Bool
  | .random _ mask => mask != 0
  | _ => false

end Instruction

/-- The operation only presses or releases keys. -/
def Operation.isKey : Operation → Bool
  | .setKeypad _ | .setKey _ _ | .toggleKey _ => true
  | _ => false

namespace Machine

section Keys

theorem keypad_liesAside : LiesAside setKeypad :=
  ⟨fun aside keypad => { aside with keypad := keypad }, fun _ _ => rfl⟩

theorem perform_setKeypad (machine : Machine) (keypad : Keypad) (instruction : Instruction)
    (blind : instruction.asksKeys = false) (other : instruction.isPlain = false) :
    Attempt.Related (SameBut setKeypad) (machine.perform instruction)
      ((machine.setKeypad keypad).perform instruction) := by
  cases instruction with
  | clear | draw | random => exact ⟨rfl, keypad, rfl⟩
  | skipIfPressed | skipIfReleased | awaitKey => cases blind
  | _ => cases other

theorem keys_lockstep :
    Lockstep (fun instruction => instruction.asksKeys = false) (SameBut setKeypad) where
  toStepLockstep :=
    stepLockstep_of_liesAside keypad_liesAside (fun _ keypad _ => ⟨keypad, rfl⟩) perform_setKeypad
  counter := by rintro _ _ ⟨_, rfl⟩; rfl
  dirty := by rintro _ _ ⟨_, rfl⟩; rfl
  display := by rintro _ _ ⟨_, rfl⟩; rfl
  performEvents := by
    rintro _ _ instruction blind ⟨_, rfl⟩
    cases instruction with
    | awaitKey => cases blind
    | _ => rfl
  direct := by
    rintro left _ operation direct ⟨keypad, rfl⟩
    cases operation with
    | load name data => exact applyLoad_related name data ⟨keypad, rfl⟩ fun _ => ⟨.released, rfl⟩
    | loadFile files path =>
        exact applyLoadFile_related files path ⟨keypad, rfl⟩ fun _ => ⟨.released, rfl⟩
    | setKeypad other => exact ⟨rfl, rfl, rfl, other, rfl⟩
    | setKey key pressed => exact ⟨rfl, rfl, rfl, keypad.set key pressed, rfl⟩
    | toggleKey key => exact ⟨rfl, rfl, rfl, keypad.toggle key, rfl⟩
    | reset => exact ⟨rfl, rfl, rfl, .released, rfl⟩
    | advance | setGenerator | takeDirty => exact ⟨rfl, rfl, rfl, keypad, rfl⟩
    | step | tick | execute | handle => cases direct

end Keys

section Random

theorem generator_liesAside : LiesAside setGenerator :=
  ⟨fun aside generator => { aside with generator := generator }, fun _ _ => rfl⟩

theorem perform_setGenerator (machine : Machine) (generator : Generator)
    (instruction : Instruction) (hidden : instruction.revealsRandom = false)
    (other : instruction.isPlain = false) :
    Attempt.Related (SameBut setGenerator) (machine.perform instruction)
      ((machine.setGenerator generator).perform instruction) := by
  cases instruction with
  | clear | draw | skipIfPressed | skipIfReleased => exact ⟨rfl, generator, rfl⟩
  | awaitKey x =>
      simp only [perform, setGenerator]
      cases machine.keypad.highest? <;> exact ⟨rfl, generator, rfl⟩
  | random x mask =>
      -- Both machines take a byte, and both store a zero.
      obtain rfl : mask = 0 := by simpa [Instruction.revealsRandom] using hidden
      simp only [perform, UInt8.zero_and]
      exact ⟨rfl, generator.next, rfl⟩
  | _ => cases other

theorem random_lockstep :
    Lockstep (fun instruction => instruction.revealsRandom = false) (SameBut setGenerator) where
  toStepLockstep :=
    stepLockstep_of_liesAside generator_liesAside (fun _ generator _ => ⟨generator, rfl⟩)
      perform_setGenerator
  counter := by rintro _ _ ⟨_, rfl⟩; rfl
  dirty := by rintro _ _ ⟨_, rfl⟩; rfl
  display := by rintro _ _ ⟨_, rfl⟩; rfl
  performEvents := by rintro _ _ instruction - ⟨_, rfl⟩; cases instruction <;> rfl
  direct := by
    rintro left _ operation direct ⟨generator, rfl⟩
    cases operation with
    | load name data => exact applyLoad_related name data ⟨generator, rfl⟩ fun _ => ⟨generator, rfl⟩
    | loadFile files path =>
        exact applyLoadFile_related files path ⟨generator, rfl⟩ fun _ => ⟨generator, rfl⟩
    | setGenerator other => exact ⟨rfl, rfl, rfl, other, rfl⟩
    | advance | setKeypad | setKey | toggleKey | takeDirty | reset =>
        exact ⟨rfl, rfl, rfl, generator, rfl⟩
    | step | tick | execute | handle => cases direct

end Random

section Keyless

/-- The operations other than keys. -/
def keyless (operations : List Operation) : List Operation :=
  operations.filter fun operation => !operation.isKey

/-- The replies to the operations other than keys. -/
def keylessReplies (machine : Machine) : List Operation → List Reply
  | [] => []
  | operation :: rest =>
      (if operation.isKey then [] else [machine.apply operation]) ++
        (machine.apply operation).machine.keylessReplies rest

theorem apply_key (machine : Machine) (operation : Operation) (key : operation.isKey) :
    SameBut setKeypad machine (machine.apply operation).machine := by
  cases operation with
  | setKeypad | setKey | toggleKey => exact ⟨_, rfl⟩
  | _ => cases key

theorem after_keys (machine : Machine) (keys : List Operation)
    (pressing : ∀ operation ∈ keys, operation.isKey) :
    SameBut setKeypad machine (machine.after keys) := by
  induction keys generalizing machine with
  | nil => exact ⟨machine.keypad, rfl⟩
  | cons operation rest inductionHypothesis =>
      rw [List.forall_mem_cons] at pressing
      obtain ⟨keypad, next⟩ := apply_key machine operation pressing.1
      obtain ⟨final, after⟩ := inductionHypothesis (machine.apply operation).machine pressing.2
      exact ⟨final, by rw [after_cons, after, next]; rfl⟩

theorem keylessReplies_append (machine : Machine) (keys rest : List Operation)
    (pressing : ∀ operation ∈ keys, operation.isKey) :
    machine.keylessReplies (keys ++ rest) = (machine.after keys).keylessReplies rest := by
  induction keys generalizing machine with
  | nil => rfl
  | cons operation others inductionHypothesis =>
      rw [List.forall_mem_cons] at pressing
      rw [List.cons_append, keylessReplies, if_pos pressing.1, List.nil_append,
        inductionHypothesis _ pressing.2, after_cons]

variable {left right : Machine}

/-- Keys that nobody asks for change nothing but the keypad. -/
theorem keyless_lockstep (same : SameBut setKeypad left right) (first second : List Operation)
    (aligned : keyless first = keyless second)
    (blind : ∀ instruction ∈ left.instructions first, instruction.asksKeys = false) :
    List.Forall₂ (Reply.Related (SameBut setKeypad)) (left.keylessReplies first)
        (right.keylessReplies second) ∧
      SameBut setKeypad (left.after first) (right.after second) := by
  -- The first run leads; the second one catches up with its keys before each common operation.
  induction first generalizing left right second with
  | nil =>
      have pressing : ∀ operation ∈ second, operation.isKey := by
        simpa [keyless] using aligned.symm
      obtain ⟨keypad, rfl⟩ := same
      obtain ⟨final, after⟩ := after_keys (left.setKeypad keypad) second pressing
      have silent := keylessReplies_append (left.setKeypad keypad) second [] pressing
      rw [List.append_nil] at silent
      exact ⟨by rw [silent]; exact .nil, final, after⟩
  | cons operation rest inductionHypothesis =>
      rw [instructions, List.forall_mem_append] at blind
      by_cases key : operation.isKey
      · obtain ⟨keypad, rfl⟩ := same
        obtain ⟨other, pressed⟩ := apply_key left operation key
        have ahead : SameBut setKeypad (left.apply operation).machine (left.setKeypad keypad) :=
          ⟨keypad, by rw [pressed]; rfl⟩
        rw [keylessReplies, if_pos key, List.nil_append, after_cons]
        exact inductionHypothesis ahead second (by simpa [keyless, key] using aligned) blind.2
      · have split : operation :: keyless rest = keyless second := by
          simpa [keyless, key] using aligned
        obtain ⟨keys, others, rfl, pressing, -, tail⟩ := List.filter_eq_cons_iff.mp split.symm
        have pressing : ∀ other ∈ keys, other.isKey := by simpa using pressing
        obtain ⟨keypad, rfl⟩ := same
        have caught : SameBut setKeypad left ((left.setKeypad keypad).after keys) := by
          obtain ⟨final, after⟩ := after_keys (left.setKeypad keypad) keys pressing
          exact ⟨final, by rw [after]; rfl⟩
        have reply := apply_lockstep keys_lockstep caught operation fun instruction executed =>
          blind.1 instruction (Option.mem_toList.mpr executed)
        obtain ⟨replies, final⟩ := inductionHypothesis reply.machine others tail.symm blind.2
        rw [keylessReplies_append _ _ _ pressing, after_append, keylessReplies, keylessReplies,
          if_neg key, if_neg key, after_cons, after_cons]
        exact ⟨.cons reply replies, final⟩

end Keyless

section Confined

/-- Two machines with different keypads and different keys reply the same to all else, as long as no
instruction of the first one asks for a key. Two machines with different generators reply the same,
as long as the first one masks all random bytes to zero. -/
theorem inputs_confined (left right : Machine) :
    (SameBut setKeypad left right → ∀ first second, keyless first = keyless second →
      (∀ instruction ∈ left.instructions first, instruction.asksKeys = false) →
      List.Forall₂ (Reply.Related (SameBut setKeypad)) (left.keylessReplies first)
          (right.keylessReplies second) ∧
        SameBut setKeypad (left.after first) (right.after second)) ∧
    (SameBut setGenerator left right → ∀ operations,
      (∀ instruction ∈ left.instructions operations, instruction.revealsRandom = false) →
      List.Forall₂ (Reply.Related (SameBut setGenerator)) (left.replies operations)
        (right.replies operations)) :=
  ⟨keyless_lockstep, replies_lockstep random_lockstep⟩

/-- The program takes a random byte, hides it and draws a glyph, and nobody asks for a key. -/
theorem inputs_confined_hidden :
    let machine := (initial {} (.arithmetic 0 1)).load
      ⟨"", [0xC1, 0x00, 0xF1, 0x29, 0xD1, 0x15], by decide, by decide⟩
    let first := [Operation.step, .setKey 3 true, .tick, .step, .step]
    let second := [Operation.toggleKey 0xA, .step, .tick, .setKeypad .released, .step, .step]
    (List.Forall₂ (Reply.Related (SameBut setKeypad)) (machine.keylessReplies first)
        ((machine.setKey 5 true).keylessReplies second) ∧
      SameBut setKeypad (machine.after first) ((machine.setKey 5 true).after second)) ∧
    List.Forall₂ (Reply.Related (SameBut setGenerator)) (machine.replies first)
      ((machine.setGenerator (.arithmetic 7 3)).replies first) := by
  intro machine first second
  have executed : machine.instructions first =
      [.random 1 0, .selectGlyph 1, .draw 1 1 5, .jump 0] := by
    decide +kernel
  obtain ⟨keys, -⟩ := inputs_confined machine (machine.setKey 5 true)
  obtain ⟨-, random⟩ := inputs_confined machine (machine.setGenerator (.arithmetic 7 3))
  refine ⟨keys ⟨_, rfl⟩ first second rfl ?_, random ⟨_, rfl⟩ first ?_⟩
  · rw [executed]
    decide
  · rw [executed]
    decide

end Confined

end Machine
end ChipEight
