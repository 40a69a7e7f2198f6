/-
This file shows what a repeated flag, a missing value and a misplaced argument do, and collects what the
reading of a command line promises.
-/
import ChipEight.Proofs.CommandLine.Choice

namespace ChipEight

namespace ArgumentGroup

section Repetition

/-- A setting that a later group replaces leaves no trace, since settings of other kinds do not read it. -/
theorem read_replaced {flag : ValueFlag} {replaced : Setting} (kind : replaced.kind = .valued flag)
    (options : Options) (middle : List ArgumentGroup) (value : String) (after : List ArgumentGroup) :
    read (options.put replaced) (middle ++ .valued flag value :: after) =
      read options (middle ++ .valued flag value :: after) := by
  induction middle generalizing options with
  | nil =>
      rw [List.nil_append, read, read]
      cases made : flag.setting value with
      | error fault => rfl
      | ok setting =>
          have same : replaced.kind = setting.kind := kind.trans (Setting.kind_of_setting made).symm
          exact congrArg (read · after) (Setting.put_put same options)
  | cons group rest inductionHypothesis =>
      have passes {setting : Setting} (other : setting.kind ≠ .valued flag) :
          read ((options.put replaced).put setting) (rest ++ .valued flag value :: after) =
            read (options.put setting) (rest ++ .valued flag value :: after) := by
        rw [Setting.put_comm (kind ▸ other.symm)]
        exact inductionHypothesis (options.put setting)
      cases group with
      | valued other given =>
          rw [List.cons_append, read, read]
          cases made : other.setting given with
          | error fault => rfl
          | ok setting =>
              by_cases same : setting.kind = .valued flag
              · exact congrArg (read · _) (Setting.put_put (kind.trans same.symm) options)
              · exact passes same
      | shiftSetsFlag | tickWhileBlocked => exact passes fun same => by cases same
      | path argument =>
          have free : (options.put replaced).romPath?.isSome = options.romPath?.isSome := by
            rw [Bool.eq_iff_iff, Setting.romPath_put, kind]
            simp
          rw [List.cons_append, read, read, free]
          split
          · rfl
          · exact passes fun same => by cases same
      | unvalued | help | unknown => rfl

variable {before middle after : List String} {flag : ValueFlag} {first second : String}

/-- Only the last value of a flag counts. -/
theorem parse_repeated {setting : Setting} (front : Complete before) (between : Complete middle)
    (made : flag.setting first = .ok setting) :
    Request.parse (before ++ flag.text :: first :: (middle ++ flag.text :: second :: after)) =
      Request.parse (before ++ (middle ++ flag.text :: second :: after)) := by
  rw [Request.parse, Request.parse, read_split, read_split, split_append front, split_append front,
    split_valued, split_append between, split_valued, read_append, read_append]
  cases read {} (split before) with
  | error fault => rfl
  | ok request =>
      cases request with
      | help => rfl
      | run options =>
          simp only [read, made]
          exact read_replaced (Setting.kind_of_setting made) options _ _ _

end Repetition

section Front

/-- An argument that starts like a flag and is none. -/
def Unknown (argument : String) : Prop :=
  "--".toList <+: argument.toList ∧ (∀ flag : ValueFlag, argument ≠ flag.text) ∧
    argument ∉ ["--shift-quirk", "--tick-while-blocked", "--help"]

theorem ofText?_unknown {argument : String} (unknown : Unknown argument) :
    ValueFlag.ofText? argument = none := by
  by_contra found
  obtain ⟨flag, found⟩ := Option.ne_none_iff_exists'.mp found
  exact unknown.2.1 flag (text_of_ofText? found).symm

theorem single_unknown {argument : String} (unknown : Unknown argument) :
    single argument = .unknown argument := by
  obtain ⟨dashes, -, other⟩ := unknown
  simp only [List.mem_cons, List.not_mem_nil, or_false, not_or] at other
  have short : argument ≠ "-h" := by
    rintro rfl
    exact absurd dashes (by decide)
  rw [single, if_neg other.1, if_neg other.2.1, if_neg (not_or.mpr ⟨other.2.2, short⟩),
    if_pos dashes]

/-- Options come out of complete arguments only. -/
theorem complete_of_read {options next : Options} {groups : List ArgumentGroup}
    (succeeded : read options groups = .ok (.run next)) (flag : ValueFlag) :
    .unvalued flag ∉ groups := by
  induction groups generalizing options with
  | nil => exact List.not_mem_nil
  | cons group rest inductionHypothesis =>
      have later {setting : Setting} (rested : read (options.put setting) rest = .ok (.run next))
          (other : group ≠ .unvalued flag) : .unvalued flag ∉ group :: rest :=
        List.not_mem_cons_of_ne_of_not_mem other.symm (inductionHypothesis rested)
      cases group with
      | valued other value =>
          rw [read] at succeeded
          cases made : other.setting value with
          | error fault =>
              rw [made] at succeeded
              cases succeeded
          | ok setting =>
              rw [made] at succeeded
              exact later succeeded (by simp)
      | shiftSetsFlag | tickWhileBlocked => exact later succeeded (by simp)
      | path argument =>
          rw [read] at succeeded
          split at succeeded
          · cases succeeded
          · exact later succeeded (by simp)
      | unvalued | help | unknown => cases succeeded

variable {before : List String} {options : Options}

/-- What stands behind options is read with them. -/
theorem parse_behind (front : Request.parse before = .ok (.run options)) (after : List String) :
    Request.parse (before ++ after) = read options (split after) := by
  rw [Request.parse, read_split] at front
  rw [Request.parse, read_split, split_append (complete_of_read front), read_append, front]

/-- A fault ends the reading. -/
theorem parse_failed {fault : UsageFault} (complete : Complete before)
    (front : Request.parse before = .error fault) (after : List String) :
    Request.parse (before ++ after) = .error fault := by
  rw [Request.parse, read_split] at front
  rw [Request.parse, read_split, split_append complete, read_append, front]

end Front

end ArgumentGroup

section Reading

open ArgumentGroup

/-- What the reading of a command line promises. -/
structure Request.Reading : Prop where
  /-- A choice is read back, in whatever order its settings are written. -/
  written (choice : Choice) {settings : List Setting} {groups : List (List String)} :
    settings.Perm choice.settings → List.Forall₂ Setting.Writes settings groups →
      (∀ path, choice.romPath? = some path → Unflagged path) →
        Request.parse groups.flatten = .ok (.run choice.options)
  /-- Only the last value of a flag counts. -/
  repeated {before middle : List String} {flag : ValueFlag} {first : String} {setting : Setting} :
    Complete before → Complete middle → flag.setting first = .ok setting → ∀ second after,
      Request.parse (before ++ flag.text :: first :: (middle ++ flag.text :: second :: after)) =
        Request.parse (before ++ (middle ++ flag.text :: second :: after))
  missing {before : List String} {options : Options} (flag : ValueFlag) :
    Request.parse before = .ok (.run options) →
      Request.parse (before ++ [flag.text]) = .error (.missingValue flag)
  unknown {before : List String} {options : Options} {argument : String} :
    Request.parse before = .ok (.run options) → Unknown argument → ∀ after,
      Request.parse (before ++ argument :: after) = .error (.unknownFlag argument)
  secondRom {before : List String} {options : Options} {argument : String} :
    Request.parse before = .ok (.run options) → options.romPath?.isSome → Unflagged argument →
      ∀ after, Request.parse (before ++ argument :: after) = .error .secondRom
  /-- An earlier fault goes before all later ones. -/
  failed {before : List String} {fault : UsageFault} :
    Complete before → Request.parse before = .error fault → ∀ after,
      Request.parse (before ++ after) = .error fault
  /-- The groups are the arguments, none left out. -/
  grouped (given : List String) : (split given).flatMap arguments = given
  /-- A fault is that of the first group from the left that has one. -/
  refused {given : List String} :
    (∀ argument, .help argument ∉ split given) → ∀ fault,
      Request.parse given = .error fault ↔ FirstFault (split given) fault
  /-- Arguments without a fault give all their settings, a later one in place of an earlier one. -/
  accepted {given : List String} :
    (∀ argument, .help argument ∉ split given) → ∀ options,
      Request.parse given = .ok (.run options) ↔
        Faultless (split given) ∧ options = settled (split given)

/-- Reading undoes writing in any order, the last value of a flag counts, and the first fault from the left
is the one that is reported. -/
theorem Request.arguments_read : Request.Reading where
  written choice _ _ order written bare := choice.parse_written order written bare
  repeated front between made _ _ := parse_repeated front between made
  missing flag front := by
    rw [parse_behind front, split_unvalued]
    rfl
  unknown front unknown after := by
    rw [parse_behind front, split_single (ofText?_unknown unknown), single_unknown unknown]
    rfl
  secondRom front taken bare after := by
    rw [parse_behind front, split_single (ofText?_unflagged bare), single_unflagged bare,
      ArgumentGroup.read, if_pos taken]
  failed := parse_failed
  grouped := split_arguments
  refused := parse_error_iff
  accepted := parse_ok_iff

/-- The values here look like flags, the level is written in mixed case, and a rate is given twice. -/
theorem Request.arguments_read_shuffled :
    Request.parse ["--log-level", "tRaCe", "--hz", "9", "--name", "-h", "--shift-quirk",
        "--archive", "--log", "--hz", "500"] =
      .ok (.run
        { archivePath? := some "--log", entryName? := some "-h"
          config := { hertz := 500, shiftSetsFlag := true }, filter := .upTo .trace }) := by
  let choice : Choice :=
    { archivePath? := some "--log", entryName? := some "-h", hertz? := some 500, shiftSetsFlag := true
      level? := some (.upTo .trace) }
  have level : Setting.Writes (.level (.upTo .trace)) ["--log-level", "tRaCe"] :=
    .level (.cons (.inr ⟨19, by decide⟩) <| .cons (.inl rfl) <| .cons (.inr ⟨0, by decide⟩) <|
      .cons (.inl rfl) <| .cons (.inr ⟨4, by decide⟩) .nil)
  have order : List.Perm
      [.level (.upTo .trace), .entry "-h", .shiftSetsFlag, .archive "--log", .hertz 500]
      choice.settings := by decide
  have bare (path : String) (given : choice.romPath? = some path) : Unflagged path := by cases given
  have once : Request.parse ["--log-level", "tRaCe", "--name", "-h", "--shift-quirk", "--archive",
      "--log", "--hz", "500"] = .ok (.run choice.options) :=
    Request.arguments_read.written choice order
      (.cons level <| .cons (.exact _) <| .cons (.exact _) <| .cons (.exact _) <|
        .cons (.exact _) .nil)
      bare
  have cut : split ["--log-level", "tRaCe"] = [.valued .level "tRaCe"] ∧
      split ["--name", "-h", "--shift-quirk", "--archive", "--log"] =
        [.valued .entry "-h", .shiftSetsFlag, .valued .archive "--log"] := by decide
  have front : Complete ["--log-level", "tRaCe"] := fun flag => by rw [cut.1]; simp
  have between : Complete ["--name", "-h", "--shift-quirk", "--archive", "--log"] := fun flag => by
    rw [cut.2]
    simp
  have nine : ValueFlag.hertz.setting "9" = .ok (.hertz 9) := by decide
  have repeated := Request.arguments_read.repeated front between nine "500" []
  exact repeated.trans once

end Reading

end ChipEight
