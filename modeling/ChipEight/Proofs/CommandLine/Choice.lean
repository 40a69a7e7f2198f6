/-
This file shows that the reading of a command line undoes its writing, in any order of the groups, and
collects what else the reading promises.
-/
import Mathlib.Data.List.Nodup
import Mathlib.Data.List.ReduceOption
import ChipEight.Proofs.CommandLine.Groups
import ChipEight.Proofs.Decimal
import ChipEight.Proofs.Letters

namespace ChipEight

section Writing

/-- The filters have capital letters as their names. -/
theorem Filter.capital_of_mem_name {filter : Filter} {letter : Char}
    (member : letter ∈ filter.name.toList) : 65 ≤ letter.toNat ∧ letter.toNat ≤ 90 := by
  have capitals : filter.name.toList.all (fun letter => 65 ≤ letter.toNat ∧ letter.toNat ≤ 90) := by
    cases filter with
    | off => rfl
    | upTo level => cases level <;> rfl
  exact of_decide_eq_true (List.all_eq_true.mp capitals letter member)

/-- A name is understood in any case. -/
theorem Filter.parse?_name {filter : Filter} {text : String}
    (same : List.Forall₂ SameLetter text.toList filter.name.toList) :
    Filter.parse? text = some filter := by
  have raised : ∀ {letters capitals : List Char}, List.Forall₂ SameLetter letters capitals →
      (∀ letter ∈ capitals, 65 ≤ letter.toNat ∧ letter.toNat ≤ 90) →
        letters.map Char.toUpper = capitals := by
    intro letters capitals related
    induction related with
    | nil => exact fun _ => rfl
    | cons first _ inductionHypothesis =>
        intro inside
        rw [List.map_cons, toUpper_eq first (inside _ List.mem_cons_self),
          inductionHypothesis fun letter member => inside letter (List.mem_cons_of_mem _ member)]
  have upper : text.toUpper = filter.name := by
    apply String.toList_injective
    rw [String.toUpper, String.toList_map]
    exact raised same fun letter member => Filter.capital_of_mem_name member
  rw [Filter.parse?, upper]
  cases filter with
  | off => decide
  | upTo level => cases level <;> decide

/-- A setting is written as its arguments, and a level in any case. -/
inductive Setting.Writes : Setting → List String → Prop where
  | exact (setting : Setting) : Writes setting setting.arguments
  | level {filter : Filter} {text : String} :
      List.Forall₂ SameLetter text.toList filter.name.toList →
        Writes (.level filter) [ValueFlag.level.text, text]

/-- A bare path is taken for no flag. -/
def Unflagged (path : String) : Prop := path ≠ "-h" ∧ ¬ "--".toList <+: path.toList

variable {options : Options} {setting : Setting} {rest : List String}

theorem Options.read_valued {flag : ValueFlag} {value : String}
    (made : flag.setting value = .ok setting) :
    options.read (flag.text :: value :: rest) = (options.put setting).read rest := by
  rw [Options.read.eq_def]
  simp only [ArgumentGroup.ofText?_text, made]

/-- All flags start with two dashes. -/
theorem ArgumentGroup.ofText?_unflagged {path : String} (bare : Unflagged path) :
    ValueFlag.ofText? path = none := by
  by_contra found
  obtain ⟨flag, found⟩ := Option.ne_none_iff_exists'.mp found
  rw [← ArgumentGroup.text_of_ofText? found] at bare
  exact bare.2 (by cases flag <;> decide)

theorem ArgumentGroup.single_unflagged {path : String} (bare : Unflagged path) :
    ArgumentGroup.single path = .path path := by
  have dashed {text : String} (two : "--".toList <+: text.toList) : path ≠ text := by
    rintro rfl
    exact bare.2 two
  rw [ArgumentGroup.single, if_neg (dashed (by decide)), if_neg (dashed (by decide)),
    if_neg (not_or.mpr ⟨dashed (by decide), bare.1⟩), if_neg bare.2]

/-- One written setting is read as itself, whatever comes behind it. -/
theorem Options.read_written {given : List String} (written : setting.Writes given)
    (bare : ∀ path, setting = .rom path → Unflagged path)
    (free : setting.kind = .rom → options.romPath? = none) :
    options.read (given ++ rest) = (options.put setting).read rest := by
  cases written with
  | level same => exact read_valued (by rw [ValueFlag.setting, Filter.parse?_name same])
  | exact =>
      cases setting with
      | rom path =>
          have alone := ArgumentGroup.ofText?_unflagged (bare path rfl)
          rw [ArgumentGroup.read_split, Setting.arguments, List.singleton_append,
            ArgumentGroup.split_single alone, ArgumentGroup.single_unflagged (bare path rfl),
            ArgumentGroup.read, free rfl, ArgumentGroup.read_split]
          rfl
      | archive | entry | log => exact read_valued rfl
      | hertz rate =>
          refine read_valued ?_
          rw [ValueFlag.setting, ValueFlag.number, Decimal.parse_toString rate.toNat_lt_size]
          exact congrArg (Except.ok ∘ Setting.hertz) UInt64.ofNat_toNat
      | cyclesPerTick count =>
          refine read_valued ?_
          rw [ValueFlag.setting, ValueFlag.number, Decimal.parse_toString count.toNat_lt_size]
          exact congrArg (Except.ok ∘ Setting.cyclesPerTick) UInt32.ofNat_toNat
      | seed value =>
          refine read_valued ?_
          rw [ValueFlag.setting, ValueFlag.number, Decimal.parse_toString value.toNat_lt_size]
          exact congrArg (Except.ok ∘ Setting.seed) UInt64.ofNat_toNat
      | shiftSetsFlag | tickWhileBlocked => rfl
      | level filter =>
          have same : List.Forall₂ SameLetter filter.name.toList filter.name.toList :=
            List.forall₂_same.mpr fun _ _ => .inl rfl
          exact read_valued (by rw [ValueFlag.setting, Filter.parse?_name same])

/-- Written settings are all read, from the left, where no two are of one kind. -/
theorem Options.read_written_all {settings : List Setting} {groups : List (List String)}
    (written : List.Forall₂ Setting.Writes settings groups)
    (bare : ∀ path, .rom path ∈ settings → Unflagged path)
    (distinct : (settings.map Setting.kind).Nodup)
    (free : .rom ∈ settings.map Setting.kind → options.romPath? = none) :
    options.read groups.flatten = .ok (.run (settings.foldl Options.put options)) := by
  induction written generalizing options with
  | nil => rfl
  | @cons first group others groups shape _ inductionHypothesis =>
      rw [List.map_cons, List.nodup_cons] at distinct
      rw [List.flatten_cons, read_written shape (fun path same => bare path (same ▸ List.mem_cons_self))
        (fun same => free (List.mem_cons.mpr (.inl same.symm))), List.foldl_cons]
      refine inductionHypothesis (fun path member => bare path (List.mem_cons_of_mem _ member))
        distinct.2 fun member => ?_
      have other : first.kind ≠ .rom := fun same => distinct.1 (same ▸ member)
      have before := free (List.mem_cons_of_mem _ member)
      rw [← Option.not_isSome_iff_eq_none, Setting.romPath_put, before]
      simp [other]

end Writing

/-- A choice gives a value to an option or leaves it out. -/
structure Choice where
  romPath? : Option String := none
  archivePath? : Option String := none
  entryName? : Option String := none
  hertz? : Option UInt64 := none
  cyclesPerTick? : Option UInt32 := none
  seed? : Option UInt64 := none
  shiftSetsFlag : Bool := false
  tickWhileBlocked : Bool := false
  logPath? : Option String := none
  level? : Option Filter := none

namespace Choice

variable (choice : Choice)

/-- Each option has a place, which is empty where it is left out. -/
def places : List (Option Setting) :=
  [choice.romPath?.map .rom, choice.archivePath?.map .archive, choice.entryName?.map .entry,
    choice.hertz?.map .hertz, choice.cyclesPerTick?.map .cyclesPerTick, choice.seed?.map .seed,
    if choice.shiftSetsFlag then some .shiftSetsFlag else none,
    if choice.tickWhileBlocked then some .tickWhileBlocked else none,
    choice.logPath?.map .log, choice.level?.map .level]

def settings : List Setting := choice.places.reduceOption

/-- An option that is left out has its default. -/
def options : Options where
  romPath? := choice.romPath?
  archivePath? := choice.archivePath?
  entryName? := choice.entryName?
  config :=
    { hertz := choice.hertz?.getD 360
      cyclesPerTick := choice.cyclesPerTick?.getD 10
      seed := choice.seed?
      shiftSetsFlag := choice.shiftSetsFlag
      tickWhileBlocked := choice.tickWhileBlocked }
  logPath? := choice.logPath?
  filter := choice.level?.getD (.upTo .warn)

section Settings

/-- An empty place changes nothing. -/
def fill (options : Options) : Option Setting → Options
  | none => options
  | some setting => options.put setting

theorem foldl_reduceOption (places : List (Option Setting)) (options : Options) :
    places.reduceOption.foldl Options.put options = places.foldl fill options := by
  induction places generalizing options with
  | nil => rfl
  | cons place rest inductionHypothesis =>
      cases place with
      | none => exact inductionHypothesis options
      | some setting => exact inductionHypothesis (options.put setting)

/-- The settings of a choice make its options. -/
theorem put_settings : choice.settings.foldl Options.put {} = choice.options := by
  obtain ⟨romPath?, archivePath?, entryName?, hertz?, cyclesPerTick?, seed?, shiftSetsFlag,
    tickWhileBlocked, logPath?, level?⟩ := choice
  have rom options : fill options (romPath?.map .rom) =
      { options with romPath? := romPath?.or options.romPath? } := by cases romPath? <;> rfl
  have archive options : fill options (archivePath?.map .archive) =
      { options with archivePath? := archivePath?.or options.archivePath? } := by
    cases archivePath? <;> rfl
  have entry options : fill options (entryName?.map .entry) =
      { options with entryName? := entryName?.or options.entryName? } := by cases entryName? <;> rfl
  have hertz options : fill options (hertz?.map .hertz) =
      { options with config.hertz := hertz?.getD options.config.hertz } := by cases hertz? <;> rfl
  have cycles options : fill options (cyclesPerTick?.map .cyclesPerTick) =
      { options with
        config.cyclesPerTick := cyclesPerTick?.getD options.config.cyclesPerTick } := by
    cases cyclesPerTick? <;> rfl
  have seed options : fill options (seed?.map .seed) =
      { options with config.seed := seed?.or options.config.seed } := by cases seed? <;> rfl
  have shifts options : fill options (if shiftSetsFlag then some .shiftSetsFlag else none) =
      { options with config.shiftSetsFlag := shiftSetsFlag || options.config.shiftSetsFlag } := by
    cases shiftSetsFlag <;> rfl
  have ticks options : fill options (if tickWhileBlocked then some .tickWhileBlocked else none) =
      { options with
        config.tickWhileBlocked := tickWhileBlocked || options.config.tickWhileBlocked } := by
    cases tickWhileBlocked <;> rfl
  have log options : fill options (logPath?.map .log) =
      { options with logPath? := logPath?.or options.logPath? } := by cases logPath? <;> rfl
  have level options : fill options (level?.map .level) =
      { options with filter := level?.getD options.filter } := by cases level? <;> rfl
  simp only [settings, foldl_reduceOption, places, List.foldl_cons, List.foldl_nil, rom, archive,
    entry, hertz, cycles, seed, shifts, ticks, log, level, Option.or_none, Bool.or_false]
  rfl

/-- Places of known kinds hold settings of some of these kinds, in their order. -/
theorem kinds_sublist {places : List (Option Setting)} {kinds : List Setting.Kind}
    (known : List.Forall₂ (fun place kind => ∀ setting ∈ place, setting.kind = kind) places kinds) :
    (places.reduceOption.map Setting.kind).Sublist kinds := by
  induction known with
  | nil => exact List.Sublist.slnil
  | @cons place kind _ _ same _ inductionHypothesis =>
      cases place with
      | none => exact inductionHypothesis.cons kind
      | some setting =>
          rw [List.reduceOption_cons_of_some, List.map_cons, same setting rfl]
          exact inductionHypothesis.cons_cons kind

/-- No two settings of a choice are of one kind. -/
theorem kinds_nodup : (choice.settings.map Setting.kind).Nodup := by
  have given {α : Type} (value? : Option α) (make : α → Setting) (kind : Setting.Kind)
      (same : ∀ value, (make value).kind = kind) :
      ∀ setting ∈ value?.map make, setting.kind = kind := by
    intro setting member
    obtain ⟨value, -, rfl⟩ := Option.mem_map.mp member
    exact same value
  have switched (isOn : Bool) (switch : Setting) :
      ∀ setting ∈ (if isOn then some switch else none), setting.kind = switch.kind := by
    intro setting member
    cases isOn <;> cases member
    rfl
  have known : List.Forall₂ (fun place kind => ∀ setting ∈ place, setting.kind = kind)
      choice.places
      [.rom, .valued .archive, .valued .entry, .valued .hertz, .valued .cyclesPerTick,
        .valued .seed, .shiftSetsFlag, .tickWhileBlocked, .valued .log, .valued .level] :=
    .cons (given _ _ _ fun _ => rfl) <| .cons (given _ _ _ fun _ => rfl) <|
      .cons (given _ _ _ fun _ => rfl) <| .cons (given _ _ _ fun _ => rfl) <|
      .cons (given _ _ _ fun _ => rfl) <| .cons (given _ _ _ fun _ => rfl) <|
      .cons (switched _ _) <| .cons (switched _ _) <|
      .cons (given _ _ _ fun _ => rfl) <| .cons (given _ _ _ fun _ => rfl) .nil
  exact (by decide : List.Nodup _).sublist (kinds_sublist known)

theorem rom_mem_settings {path : String} : .rom path ∈ choice.settings ↔ choice.romPath? = some path := by
  simp [settings, List.reduceOption_mem_iff, places]

/-- Settings of different kinds can be put in any order. -/
theorem put_settings_perm {settings : List Setting} (order : settings.Perm choice.settings) :
    settings.foldl Options.put {} = choice.options := by
  rw [← put_settings]
  refine order.foldl_eq' (fun first firstMember second secondMember options => ?_) _
  have distinct := (order.map Setting.kind).nodup_iff.mpr choice.kinds_nodup
  by_cases same : first.kind = second.kind
  · rw [List.inj_on_of_nodup_map distinct firstMember secondMember same]
  · exact Setting.put_comm same options

/-- Writing a choice in any order and reading it gives the options of the choice. -/
theorem parse_written {settings : List Setting} {groups : List (List String)}
    (order : settings.Perm choice.settings)
    (written : List.Forall₂ Setting.Writes settings groups)
    (bare : ∀ path, choice.romPath? = some path → Unflagged path) :
    Request.parse groups.flatten = .ok (.run choice.options) := by
  rw [← choice.put_settings_perm order]
  exact Options.read_written_all written
    (fun path member => bare path (choice.rom_mem_settings.mp (order.mem_iff.mp member)))
    ((order.map Setting.kind).nodup_iff.mpr choice.kinds_nodup) fun _ => rfl

end Settings
end Choice
end ChipEight
