/-
This file shows that each key is in the state that its own reports give it.
-/
import Mathlib.Algebra.Group.Nat.Even
import ChipEight.Bare.Keypad
import ChipEight.Proofs.Deed
import ChipEight.Proofs.Successor

namespace ChipEight

namespace Keypad

section Turns

namespace Report

variable {key : Nibble} {pressed state : Bool} {report : Report}

theorem turn_untouched (untouched : report.touches key = false) :
    report.turn key pressed = pressed := by
  cases report with
  | set other _ | toggle other =>
      have apart : other ≠ key := by simpa [touches] using untouched
      exact if_neg apart
  | replace | reset => cases untouched

theorem turn_settled (settled : report.state? key = some state) :
    report.turn key pressed = state := by
  cases report with
  | set other _ =>
      simp only [state?, Option.ite_none_right_eq_some, Option.some.injEq] at settled
      exact (if_pos settled.1).trans settled.2
  | toggle => cases settled
  | replace | reset => exact Option.some.inj settled

/-- A report that does not settle a key turns it over or does not touch it. -/
theorem turn_unsettled (unsettled : report.state? key = none) :
    report.turn key pressed = (pressed ^^ decide (report = .toggle key)) := by
  cases report with
  | set other _ =>
      have apart : other ≠ key := by simpa [state?] using unsettled
      simp [turn, apart]
  | toggle other => by_cases same : other = key <;> simp [turn, same]
  | replace | reset => cases unsettled

end Report

variable (keypad : Keypad) (key : Nibble)

theorem get_released : released.keys.get key = false := by
  simp [released, Vector.get]

theorem get_apply (report : Report) :
    (keypad.apply report).keys.get key = report.turn key (keypad.keys.get key) := by
  cases report with
  | set other pressed => exact keypad.getSet other pressed key
  | toggle other =>
      rw [apply, toggle, getSet, Report.turn]
      split
      · next same => rw [same]
      · rfl
  | replace => rfl
  | reset => exact get_released key

/-- The reports that do not touch a key can be left out. -/
theorem get_after (reports : List Report) :
    (keypad.after reports).keys.get key =
      (Report.own key reports).foldl (Report.turn key) (keypad.keys.get key) := by
  induction reports generalizing keypad with
  | nil => rfl
  | cons report rest inductionHypothesis =>
      rw [after_cons, inductionHypothesis, get_apply, Report.own, Report.own]
      cases touched : report.touches key with
      | true => rw [List.filter_cons_of_pos touched, List.foldl_cons]
      | false =>
          rw [List.filter_cons_of_neg (by simp [touched]), Report.turn_untouched touched]

/-- Only the number of its toggles matters to a key that no report settles. -/
theorem get_after_unsettled (reports : List Report)
    (unsettled : ∀ report ∈ reports, report.state? key = none) :
    (keypad.after reports).keys.get key =
      (keypad.keys.get key ^^ decide (Odd (reports.count (.toggle key)))) := by
  -- Each report toggles the key or misses it, and the state before it moves along.
  induction reports generalizing keypad with
  | nil => simp
  | cons report rest inductionHypothesis =>
      rw [List.forall_mem_cons] at unsettled
      rw [after_cons, inductionHypothesis _ unsettled.2, get_apply,
        Report.turn_unsettled unsettled.1, List.count_cons]
      by_cases toggled : report = .toggle key <;> simp [toggled, Nat.odd_add_one, -Nat.not_odd_iff_even]

end Turns

section Groups

variable (keypad : Keypad) (reports others : List Report)

/-- Two lists with the same reports for each key lead to the same keypad. -/
theorem after_congr (same : ∀ key, Report.own key reports = Report.own key others) :
    keypad.after reports = keypad.after others :=
  ext fun key => by rw [get_after, get_after, same]

theorem own_eq_nil {key : Nibble} {reports : List Report} :
    Report.own key reports = [] ↔ ∀ report ∈ reports, report.touches key = false := by
  simp [Report.own]

theorem own_append (key : Nibble) :
    Report.own key (reports ++ others) = Report.own key reports ++ Report.own key others :=
  List.filter_append ..

/-- Lists of reports about different keys can be exchanged. -/
theorem after_comm
    (apart : ∀ key, Report.own key reports = [] ∨ Report.own key others = []) :
    (keypad.after reports).after others = (keypad.after others).after reports := by
  rw [← after_append, ← after_append]
  refine keypad.after_congr _ _ fun key => ?_
  rw [own_append, own_append]
  obtain none | none := apart key <;> rw [none, List.nil_append, List.append_nil]

end Groups

section Highest

variable (keypad : Keypad)

theorem highest?_eq_none_iff : keypad.highest? = none ↔ keypad = .released := by
  rw [highestNone]
  constructor
  · intro none
    exact ext fun key => (none key).trans (get_released key).symm
  · rintro rfl key
    exact get_released key

end Highest

section InPlace

open Bare

variable (keypad : Keypad)

/-- Every key has a place in the array. -/
theorem replace_keys (key : Nibble) (pressed : Bool) :
    replace keypad.keys.toArray key.val pressed = .ok (keypad.set key pressed).keys.toArray := by
  have inside : key.val < keypad.keys.toArray.size := by simp
  simp only [replace, dif_pos inside]
  rfl

theorem item_keys (key : Nibble) : item keypad.keys.toArray key.val = .ok (keypad.keys.get key) := by
  have inside : key.val < keypad.keys.toArray.size := by simp
  simp only [item, dif_pos inside]
  rfl

theorem apply_keys (report : Report) :
    Keys.apply keypad.keys.toArray report = .ok (keypad.apply report).keys.toArray := by
  cases report with
  | set key pressed => exact keypad.replace_keys key pressed
  | toggle key =>
      rw [Keys.apply, item_keys]
      exact keypad.replace_keys key _
  | replace | reset => rfl

theorem after_keys (reports : List Report) :
    Keys.after keypad.keys.toArray reports = .ok (keypad.after reports).keys.toArray := by
  induction reports generalizing keypad with
  | nil => rfl
  | cons report rest inductionHypothesis =>
      rw [Keys.after, List.foldlM_cons, apply_keys]
      exact inductionHypothesis (keypad.apply report)

theorem isPressed?_keys (position : Nat) :
    Keys.isPressed? keypad.keys.toArray position = keypad.isPressed? position :=
  Vector.getElem?_toArray

/-- A scan ends at the highest pressed position below its stop. -/
theorem scan_eq_some_iff (keys : Keys) (stop position : Nat) :
    keys.scan stop = some position ↔ position < stop ∧ keys[position]? = some true ∧
      ∀ other, other < stop → keys[other]? = some true → other ≤ position := by
  induction stop with
  | zero => simp [Keys.scan]
  | succ last inductionHypothesis =>
      rw [Keys.scan]
      split
      · next pressed =>
          rw [Option.some.injEq]
          constructor
          · rintro rfl
            exact ⟨Nat.lt_succ_self _, pressed, fun other below _ => Nat.le_of_lt_succ below⟩
          · rintro ⟨below, -, highest⟩
            exact Nat.le_antisymm (highest last (Nat.lt_succ_self _) pressed) (Nat.le_of_lt_succ below)
      · next released =>
          rw [inductionHypothesis]
          -- A released last position changes nothing about the pressed ones below the stop.
          have below {other : Nat} (pressed : keys[other]? = some true) :
              other < last + 1 ↔ other < last := by
            have apart : other ≠ last := fun same => released (same ▸ pressed)
            omega
          constructor
          · rintro ⟨inside, pressed, highest⟩
            exact ⟨(below pressed).mpr inside, pressed, fun other small held =>
              highest other ((below held).mp small) held⟩
          · rintro ⟨inside, pressed, highest⟩
            exact ⟨(below pressed).mp inside, pressed, fun other small held =>
              highest other ((below held).mpr small) held⟩

theorem highest?_keys :
    Keys.highest? keypad.keys.toArray = keypad.highest?.map Fin.val := by
  have held (position : Nat) : keypad.keys.toArray[position]? = some true ↔
      ∃ key : Nibble, key.val = position ∧ keypad.keys.get key = true := by
    rw [← isPressed?_eq_some_iff, ← isPressed?_keys, Keys.isPressed?]
  ext position
  rw [Keys.highest?, scan_eq_some_iff, Option.map_eq_some_iff, held]
  constructor
  · rintro ⟨-, ⟨key, rfl, pressed⟩, highest⟩
    exact ⟨key, (keypad.highestSome key).mpr ⟨pressed, fun other found =>
      highest other.val (by simp) ((held _).mpr ⟨other, rfl, found⟩)⟩, rfl⟩
  · rintro ⟨key, found, rfl⟩
    obtain ⟨pressed, highest⟩ := (keypad.highestSome key).mp found
    refine ⟨by simp, ⟨key, rfl, pressed⟩, fun position _ pressed => ?_⟩
    obtain ⟨other, rfl, found⟩ := (held position).mp pressed
    exact highest other found

end InPlace

end Keypad

/-- The other operations, and loads that fail, do not touch the keys. -/
def Operation.reports : Operation → List Keypad.Report
  | .setKeypad keypad => [.replace keypad]
  | .setKey key pressed => [.set key pressed]
  | .toggleKey key => [.toggle key]
  | operation => if operation.erases then [.reset] else []

namespace Machine

section Carried

variable (machine : Machine)

theorem settle_keypad (signal : Signal) : (machine.settle signal).1.keypad = machine.keypad := by
  obtain ⟨step, settled, -⟩ | ⟨step, settled, -⟩ := machine.settle_cases signal
  · rw [settled]
  · rw [settled, tickTimers_eq]

theorem step_keypad : machine.step.machine.keypad = machine.keypad := by
  obtain ⟨fault, word, -, -, failed⟩ |
      ⟨word, _, handled, move, -, -, -, -, performed, shape, done⟩ := machine.step_cases
  · rw [failed]
    rfl
  · rw [done, settle_keypad, shape]
    exact performed.keypad

theorem execute_keypad (word : Word) : (machine.execute word).machine.keypad = machine.keypad := by
  obtain ⟨fault, -, failed⟩ | ⟨_, handled, move, -, -, done, performed⟩ := machine.execute_cases word
  · rw [failed]
  · rw [done]
    exact performed.keypad

theorem handle_keypad (family : Nibble) (word : Word) :
    (machine.handle family word).machine.keypad = machine.keypad := by
  obtain ⟨fault, -, failed⟩ | ⟨_, handled, move, -, -, done, performed⟩ :=
    machine.handle_cases family word
  · rw [failed]
  · rw [done]
    exact performed.keypad

/-- An instruction reads the keys and leaves them alone. -/
theorem apply_keypad (operation : Operation) :
    (machine.apply operation).machine.keypad = machine.keypad.after operation.reports := by
  have stepped (stepping : operation.isStep) :
      (machine.apply operation).machine.keypad = machine.keypad := by
    obtain ⟨-, dirty, after⟩ := machine.apply_step operation stepping
    rw [after]
    exact machine.step_keypad
  cases operation with
  | step | tick => exact stepped rfl
  | execute word => exact machine.execute_keypad word
  | handle family word => exact machine.handle_keypad family word
  | load name data =>
      cases image : Rom.ofData name data <;>
        simp only [apply, applyLoad, Operation.reports, Operation.erases, image] <;> rfl
  | loadFile files path =>
      cases image : Rom.ofFile files path <;>
        simp only [apply, applyLoadFile, loadFile, Operation.reports, Operation.erases, image] <;> rfl
  | advance | setKeypad | setKey | toggleKey | setGenerator | takeDirty | reset => rfl

theorem after_keypad (operations : List Operation) :
    (machine.after operations).keypad = machine.keypad.after (operations.flatMap Operation.reports) := by
  induction operations generalizing machine with
  | nil => rfl
  | cons operation rest inductionHypothesis =>
      rw [after_cons, inductionHypothesis, apply_keypad, List.flatMap_cons, Keypad.after_append]

end Carried

end Machine

namespace Keypad

section Reflected

variable (keypad : Keypad) (reports : List Report)

/-- The reports that touch a key give it its state, and the last one that settles it counts; the
reports about other keys may come in any order between them. -/
structure Reflects : Prop where
  folded (key : Nibble) : (keypad.after reports).keys.get key =
    (Report.own key reports).foldl (Report.turn key) (keypad.keys.get key)
  settled (key : Nibble) (state : Bool) (before : List Report) (report : Report)
    (later : List Report) : reports = before ++ report :: later → report.state? key = some state →
    (∀ other ∈ later, other.state? key = none) →
    (keypad.after reports).keys.get key = (state ^^ decide (Odd (later.count (.toggle key))))
  unsettled (key : Nibble) : (∀ report ∈ reports, report.state? key = none) →
    (keypad.after reports).keys.get key =
      (keypad.keys.get key ^^ decide (Odd (reports.count (.toggle key))))
  untouched (key : Nibble) : (∀ report ∈ reports, report.touches key = false) →
    (keypad.after reports).keys.get key = keypad.keys.get key
  regrouped (others : List Report) :
    (∀ key, Report.own key reports = Report.own key others) →
    keypad.after reports = keypad.after others
  commuted (others : List Report) :
    (∀ key, Report.own key reports = [] ∨ Report.own key others = []) →
    (keypad.after reports).after others = (keypad.after others).after reports

theorem reflects_after : Reflects keypad reports where
  folded key := keypad.get_after key reports
  settled key state before report later split settles unsettled := by
    rw [split, after_append, after_cons, get_after_unsettled _ key later unsettled, get_apply,
      Report.turn_settled settles]
  unsettled key := keypad.get_after_unsettled key reports
  untouched key untouched := by
    rw [get_after, own_eq_nil.mpr untouched]
    rfl
  regrouped others := keypad.after_congr reports others
  commuted others := keypad.after_comm reports others

/-- The questions about single keys and about the highest one agree. -/
structure Answers : Prop where
  asked (key : Nibble) : keypad.isPressed? key.val = some (keypad.keys.get key)
  missing (number : Nat) : keypad.isPressed? number = none ↔ 16 ≤ number
  highest (key : Nibble) : keypad.highest? = some key ↔ keypad.isPressed? key.val = some true ∧
    ∀ number, keypad.isPressed? number = some true → number ≤ key.val
  blank : keypad.highest? = none ↔ keypad = .released

theorem answers : Answers keypad where
  asked key := (keypad.isPressed?_eq_some_iff key.val _).mpr ⟨key, rfl, rfl⟩
  missing := keypad.isPressedPast
  highest key := by
    simp only [highestSome, isPressed?_eq_some_iff, Fin.val_inj, exists_eq_left]
    refine and_congr_right fun _ => ⟨?_, fun highest other held => highest other.val ⟨other, rfl, held⟩⟩
    rintro highest number ⟨other, rfl, held⟩
    exact highest other held
  blank := keypad.highest?_eq_none_iff

/-- No access misses its key, and the answers are the same in place. -/
structure InPlace : Prop where
  after : Bare.Keys.after keypad.keys.toArray reports = .ok (keypad.after reports).keys.toArray
  asked (number : Nat) : Bare.Keys.isPressed? (keypad.after reports).keys.toArray number =
    (keypad.after reports).isPressed? number
  highest : Bare.Keys.highest? (keypad.after reports).keys.toArray =
    (keypad.after reports).highest?.map Fin.val

/-- After any reports each key is in the state that its own reports give it, and the keypad of a
machine follows the reports among its operations. -/
theorem keys_reported :
    Reflects keypad reports ∧ Answers (keypad.after reports) ∧ InPlace keypad reports ∧
      ∀ (machine : Machine) (operations : List Operation), machine.keypad = keypad →
        operations.flatMap Operation.reports = reports →
        (machine.after operations).keypad = keypad.after reports := by
  refine ⟨reflects_after keypad reports, answers _, ?_, ?_⟩
  · exact ⟨keypad.after_keys reports, isPressed?_keys _, highest?_keys _⟩
  · rintro machine operations rfl rfl
    exact machine.after_keypad operations

/-- A key that is settled once and then toggled twice keeps its state, and another key does not mind. -/
theorem keys_reported_settled :
    let reports : List Report := [.toggle 0x3, .set 0x3 true, .toggle 0xA, .toggle 0x3, .toggle 0x3]
    (released.after reports).isPressed? 0x3 = some true ∧
      (released.after reports).highest? = some 0xA ∧
      (released.after reports).after [.set 0x7 true] =
        (released.after [.set 0x7 true]).after reports := by
  intro reports
  obtain ⟨reflects, answers, -, -⟩ := keys_reported released reports
  have settled : (released.after reports).keys.get 0x3 = true :=
    reflects.settled 0x3 true [.toggle 0x3] (.set 0x3 true)
      [.toggle 0xA, .toggle 0x3, .toggle 0x3] rfl rfl (by decide)
  have highest : (released.after reports).highest? = some 0xA := by decide
  exact ⟨settled ▸ answers.asked 0x3, highest, reflects.commuted [.set 0x7 true] (by decide)⟩

end Reflected

end Keypad
end ChipEight
