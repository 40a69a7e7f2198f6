/-
This file cuts the arguments of a command line into groups, and shows that reading them finds the first
group that has a fault.
-/
import Mathlib.Data.List.Induction
import ChipEight.CommandLine.Options

namespace ChipEight

/-- A group is a value flag with its value, or a single argument. -/
inductive ArgumentGroup where
  | valued (flag : ValueFlag) (value : String)
  /-- The arguments end before the value. -/
  | unvalued (flag : ValueFlag)
  | shiftSetsFlag
  | tickWhileBlocked
  | help (argument : String)
  | unknown (argument : String)
  | path (argument : String)
  deriving DecidableEq

namespace Setting

/-- The options hold one setting of each kind. -/
inductive Kind where
  | rom
  | valued (flag : ValueFlag)
  | shiftSetsFlag
  | tickWhileBlocked
  deriving DecidableEq

def kind : Setting → Kind
  | .rom _ => .rom
  | .archive _ => .valued .archive
  | .entry _ => .valued .entry
  | .hertz _ => .valued .hertz
  | .cyclesPerTick _ => .valued .cyclesPerTick
  | .seed _ => .valued .seed
  | .shiftSetsFlag => .shiftSetsFlag
  | .tickWhileBlocked => .tickWhileBlocked
  | .log _ => .valued .log
  | .level _ => .valued .level

theorem kind_of_setting {flag : ValueFlag} {value : String} {setting : Setting}
    (made : flag.setting value = .ok setting) : setting.kind = .valued flag := by
  have number {limit : Nat} {make : Nat → Setting}
      (made : (flag.number limit value).map make = .ok setting) : ∃ n, make n = setting := by
    cases read : flag.number limit value with
    | error fault =>
        rw [read] at made
        cases made
    | ok n =>
        rw [read] at made
        exact ⟨n, Except.ok.inj made⟩
  cases flag with
  | archive | entry | log =>
      cases made
      rfl
  | hertz | cyclesPerTick | seed =>
      obtain ⟨n, rfl⟩ := number made
      rfl
  | level =>
      rw [ValueFlag.setting] at made
      split at made <;> cases made
      rfl

/-- A setting takes the place of one of its own kind. -/
theorem put_put {first second : Setting} (same : first.kind = second.kind) (options : Options) :
    (options.put first).put second = options.put second := by
  cases first <;> cases second <;> first | rfl | cases same

/-- Settings of different kinds do not meet. -/
theorem put_comm {first second : Setting} (different : first.kind ≠ second.kind)
    (options : Options) :
    (options.put first).put second = (options.put second).put first := by
  cases first <;> cases second <;> first | rfl | exact absurd rfl different

theorem romPath_put (options : Options) (setting : Setting) :
    (options.put setting).romPath?.isSome ↔ setting.kind = .rom ∨ options.romPath?.isSome := by
  cases setting <;> simp [Options.put, kind]

end Setting

namespace ArgumentGroup

section Split

/-- An argument that is no value flag stands alone. -/
def single (argument : String) : ArgumentGroup :=
  if argument = "--shift-quirk" then .shiftSetsFlag
  else if argument = "--tick-while-blocked" then .tickWhileBlocked
  else if argument = "--help" ∨ argument = "-h" then .help argument
  else if "--".toList <+: argument.toList then .unknown argument
  else .path argument

/-- A value flag takes the argument behind it, whatever that looks like. -/
def split : List String → List ArgumentGroup
  | [] => []
  | argument :: rest =>
      match ValueFlag.ofText? argument, rest with
      | none, rest => single argument :: split rest
      | some flag, [] => [.unvalued flag]
      | some flag, value :: rest => .valued flag value :: split rest

/-- A group is written as it was read. -/
def arguments : ArgumentGroup → List String
  | .valued flag value => [flag.text, value]
  | .unvalued flag => [flag.text]
  | .shiftSetsFlag => ["--shift-quirk"]
  | .tickWhileBlocked => ["--tick-while-blocked"]
  | .help argument | .unknown argument | .path argument => [argument]

/-- The arguments do not end before the value of a flag. -/
def Complete (arguments : List String) : Prop := ∀ flag, .unvalued flag ∉ split arguments

theorem ofText?_text (flag : ValueFlag) : ValueFlag.ofText? flag.text = some flag := by
  cases flag <;> decide

theorem text_of_ofText? {argument : String} {flag : ValueFlag}
    (found : ValueFlag.ofText? argument = some flag) : flag.text = argument :=
  beq_iff_eq.mp (List.find?_some (p := fun flag : ValueFlag => flag.text == argument) found)

theorem arguments_single (argument : String) : (single argument).arguments = [argument] := by
  unfold single
  split_ifs <;> simp_all [arguments]

theorem split_single {argument : String} (alone : ValueFlag.ofText? argument = none)
    (rest : List String) : split (argument :: rest) = single argument :: split rest := by
  rw [split.eq_def]
  simp only [alone]

theorem split_unvalued (flag : ValueFlag) : split [flag.text] = [.unvalued flag] := by
  rw [split.eq_def]
  simp only [ofText?_text]

theorem split_valued (flag : ValueFlag) (value : String) (rest : List String) :
    split (flag.text :: value :: rest) = .valued flag value :: split rest := by
  rw [split.eq_def]
  simp only [ofText?_text]

/-- The cut loses no argument. -/
theorem split_arguments (given : List String) : (split given).flatMap arguments = given := by
  induction given using split.induct with
  | case1 => rfl
  | case2 argument rest alone inductionHypothesis =>
      rw [split_single alone, List.flatMap_cons, arguments_single, inductionHypothesis]
      rfl
  | case3 argument flag found =>
      rw [← text_of_ofText? found, split_unvalued]
      rfl
  | case4 argument flag value rest found inductionHypothesis =>
      rw [← text_of_ofText? found, split_valued, List.flatMap_cons, inductionHypothesis]
      rfl

/-- A cut behind complete arguments does not change the groups. -/
theorem split_append {first : List String} (complete : Complete first) (second : List String) :
    split (first ++ second) = split first ++ split second := by
  induction first using split.induct with
  | case1 => rfl
  | case2 argument rest alone inductionHypothesis =>
      rw [Complete, split_single alone] at complete
      rw [List.cons_append, split_single alone, split_single alone, List.cons_append,
        inductionHypothesis fun flag member => complete flag (List.mem_cons_of_mem _ member)]
  | case3 argument flag found =>
      rw [Complete, ← text_of_ofText? found, split_unvalued] at complete
      exact absurd List.mem_cons_self (complete flag)
  | case4 argument flag value rest found inductionHypothesis =>
      rw [Complete, ← text_of_ofText? found, split_valued] at complete
      rw [← text_of_ofText? found, List.cons_append, List.cons_append, split_valued, split_valued,
        List.cons_append,
        inductionHypothesis fun flag member => complete flag (List.mem_cons_of_mem _ member)]

end Split

section Faults

/-- A group is refused for its own sake, or because a path stands in an earlier group. -/
inductive Offends (earlier : List ArgumentGroup) : ArgumentGroup → UsageFault → Prop where
  | value {flag : ValueFlag} {value : String} {fault : UsageFault} :
      flag.setting value = .error fault → Offends earlier (.valued flag value) fault
  | missing (flag : ValueFlag) : Offends earlier (.unvalued flag) (.missingValue flag)
  | unknown (argument : String) : Offends earlier (.unknown argument) (.unknownFlag argument)
  | secondRom {first argument : String} :
      .path first ∈ earlier → Offends earlier (.path argument) .secondRom

def Faultless (groups : List ArgumentGroup) : Prop :=
  ∀ before group after fault, groups = before ++ group :: after → ¬ Offends before group fault

/-- The fault belongs to the first group from the left that has one. -/
def FirstFault (groups : List ArgumentGroup) (fault : UsageFault) : Prop :=
  ∃ before group after, groups = before ++ group :: after ∧ Offends before group fault ∧
    Faultless before

theorem faultless_nil : Faultless [] := by
  intro before group after fault shape
  cases before <;> cases shape

theorem faultless_concat (groups : List ArgumentGroup) (last : ArgumentGroup) :
    Faultless (groups ++ [last]) ↔ Faultless groups ∧ ∀ fault, ¬ Offends groups last fault := by
  constructor
  · intro faultless
    refine ⟨fun before group after fault shape => ?_, fun fault => ?_⟩
    · exact faultless before group (after ++ [last]) fault (by simp [shape])
    · exact faultless groups last [] fault rfl
  · rintro ⟨faultless, quiet⟩ before group after fault shape
    rcases List.eq_nil_or_concat after with rfl | ⟨rest, final, rfl⟩
    · obtain ⟨rfl, same⟩ := List.append_inj' shape rfl
      cases same
      exact quiet fault
    · rw [List.concat_eq_append, ← List.cons_append, ← List.append_assoc] at shape
      obtain ⟨front, -⟩ := List.append_inj' shape rfl
      exact faultless before group rest fault front

/-- Groups that are not faultless have a first fault. -/
theorem firstFault_of_not_faultless {groups : List ArgumentGroup} (faulty : ¬ Faultless groups) :
    ∃ fault, FirstFault groups fault := by
  induction groups using List.reverseRecOn with
  | nil => exact absurd faultless_nil faulty
  | append_singleton groups last inductionHypothesis =>
      by_cases earlier : Faultless groups
      · have offends : ¬ ∀ fault, ¬ Offends groups last fault := fun quiet =>
          faulty ((faultless_concat groups last).mpr ⟨earlier, quiet⟩)
        obtain ⟨fault, offends⟩ := not_forall_not.mp offends
        exact ⟨fault, groups, last, [], rfl, offends, earlier⟩
      · obtain ⟨fault, before, group, after, rfl, offends, clean⟩ := inductionHypothesis earlier
        exact ⟨fault, before, group, after ++ [last], by simp, offends, clean⟩

end Faults

section Reading

/-- A group without a fault makes a setting, unless it asks for help. -/
def setting? : ArgumentGroup → Option Setting
  | .valued flag value => (flag.setting value).toOption
  | .shiftSetsFlag => some .shiftSetsFlag
  | .tickWhileBlocked => some .tickWhileBlocked
  | .path argument => some (.rom argument)
  | .unvalued _ | .help _ | .unknown _ => none

/-- All settings of the groups, from the left. -/
def settled (groups : List ArgumentGroup) : Options :=
  (groups.filterMap setting?).foldl Options.put {}

/-- One group is read at a time. -/
def read (options : Options) : List ArgumentGroup → Except UsageFault Request
  | [] => .ok (.run options)
  | .valued flag value :: rest =>
      match flag.setting value with
      | .error fault => .error fault
      | .ok setting => read (options.put setting) rest
  | .unvalued flag :: _ => .error (.missingValue flag)
  | .shiftSetsFlag :: rest => read (options.put .shiftSetsFlag) rest
  | .tickWhileBlocked :: rest => read (options.put .tickWhileBlocked) rest
  | .help _ :: _ => .ok .help
  | .unknown argument :: _ => .error (.unknownFlag argument)
  | .path argument :: rest =>
      if options.romPath?.isSome then .error .secondRom
      else read (options.put (.rom argument)) rest

/-- Reading the arguments is reading their groups. -/
theorem read_split (options : Options) (given : List String) :
    options.read given = read options (split given) := by
  induction given using split.induct generalizing options with
  | case1 => rfl
  | case2 argument rest alone inductionHypothesis =>
      rw [split_single alone, Options.read.eq_def, single]
      simp only [alone, Setting.ofSwitch?]
      split_ifs <;> simp_all [read]
  | case3 argument flag found =>
      rw [← text_of_ofText? found, split_unvalued, Options.read.eq_def]
      simp only [ofText?_text]
      rfl
  | case4 argument flag value rest found inductionHypothesis =>
      rw [← text_of_ofText? found, split_valued, Options.read.eq_def, read]
      simp only [ofText?_text]
      cases flag.setting value with
      | error fault => rfl
      | ok setting => exact inductionHypothesis _

theorem read_append (options : Options) (first second : List ArgumentGroup) :
    read options (first ++ second) =
      match read options first with
      | .error fault => .error fault
      | .ok .help => .ok .help
      | .ok (.run next) => read next second := by
  induction first generalizing options with
  | nil => rfl
  | cons group rest inductionHypothesis =>
      cases group with
      | valued flag value =>
          rw [List.cons_append, read, read]
          cases flag.setting value with
          | error fault => rfl
          | ok setting => exact inductionHypothesis _
      | path argument =>
          rw [List.cons_append, read, read]
          split
          · rfl
          · exact inductionHypothesis _
      | shiftSetsFlag | tickWhileBlocked => exact inductionHypothesis _
      | unvalued | help | unknown => rfl

theorem settled_concat (groups : List ArgumentGroup) (last : ArgumentGroup) :
    settled (groups ++ [last]) = (setting? last).toList.foldl Options.put (settled groups) := by
  rw [settled, List.filterMap_append, List.foldl_append, settled]
  cases made : setting? last <;> simp [made]

theorem settled_rom (groups : List ArgumentGroup) :
    (settled groups).romPath?.isSome ↔ ∃ argument, .path argument ∈ groups := by
  induction groups using List.reverseRecOn with
  | nil => simp [settled]
  | append_singleton groups last inductionHypothesis =>
      rw [settled_concat]
      cases last with
      | valued flag value =>
          cases made : flag.setting value with
          | error fault => simp [setting?, made, Except.toOption, inductionHypothesis]
          | ok setting =>
              have kind := Setting.kind_of_setting made
              simp [setting?, made, Except.toOption, Setting.romPath_put, kind, inductionHypothesis]
      | _ => simp [setting?, Setting.romPath_put, Setting.kind, inductionHypothesis]

/-- Groups without a fault are read to their end. -/
theorem read_faultless {groups : List ArgumentGroup} (faultless : Faultless groups)
    (helpless : ∀ argument, .help argument ∉ groups) :
    read {} groups = .ok (.run (settled groups)) := by
  induction groups using List.reverseRecOn with
  | nil => rfl
  | append_singleton groups last inductionHypothesis =>
      obtain ⟨earlier, quiet⟩ := (faultless_concat groups last).mp faultless
      have before := inductionHypothesis earlier fun argument member =>
        helpless argument (List.mem_append_left _ member)
      rw [read_append, before, settled_concat]
      cases last with
      | valued flag value =>
          cases made : flag.setting value with
          | error fault => exact absurd (.value made) (quiet fault)
          | ok setting => simp [read, setting?, made, Except.toOption]
      | path argument =>
          have free : ¬ (settled groups).romPath?.isSome := fun taken => by
            obtain ⟨first, member⟩ := (settled_rom groups).mp taken
            exact quiet _ (.secondRom member)
          simp [read, setting?, free]
      | shiftSetsFlag | tickWhileBlocked => rfl
      | unvalued flag => exact absurd (.missing flag) (quiet _)
      | unknown argument => exact absurd (.unknown argument) (quiet _)
      | help argument => exact absurd (List.mem_append_right _ List.mem_cons_self) (helpless argument)

/-- The first fault ends the reading, whatever comes behind it. -/
theorem read_firstFault {groups : List ArgumentGroup} {fault : UsageFault}
    (first : FirstFault groups fault) (helpless : ∀ argument, .help argument ∉ groups) :
    read {} groups = .error fault := by
  obtain ⟨before, group, after, rfl, offends, clean⟩ := first
  have front := read_faultless clean fun argument member =>
    helpless argument (List.mem_append_left _ member)
  rw [read_append, front]
  cases offends with
  | value refused => simp only [read, refused]
  | missing flag => rfl
  | unknown argument => rfl
  | secondRom member => exact if_pos ((settled_rom before).mpr ⟨_, member⟩)

end Reading

section Parse

variable {given : List String}

theorem parse_error_iff (helpless : ∀ argument, .help argument ∉ split given) (fault : UsageFault) :
    Request.parse given = .error fault ↔ FirstFault (split given) fault := by
  rw [Request.parse, read_split]
  refine ⟨fun failed => ?_, fun first => read_firstFault first helpless⟩
  by_cases faultless : Faultless (split given)
  · rw [read_faultless faultless helpless] at failed
    cases failed
  · obtain ⟨other, first⟩ := firstFault_of_not_faultless faultless
    cases failed.symm.trans (read_firstFault first helpless)
    exact first

theorem parse_ok_iff (helpless : ∀ argument, .help argument ∉ split given) (options : Options) :
    Request.parse given = .ok (.run options) ↔
      Faultless (split given) ∧ options = settled (split given) := by
  rw [Request.parse, read_split]
  constructor
  · intro succeeded
    by_cases faultless : Faultless (split given)
    · cases succeeded.symm.trans (read_faultless faultless helpless)
      exact ⟨faultless, rfl⟩
    · obtain ⟨fault, first⟩ := firstFault_of_not_faultless faultless
      cases succeeded.symm.trans (read_firstFault first helpless)
  · rintro ⟨faultless, rfl⟩
    exact read_faultless faultless helpless

end Parse

end ArgumentGroup
end ChipEight
