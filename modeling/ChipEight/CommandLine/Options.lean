/-
This file reads the options of the command line and writes them back as arguments.
-/
import ChipEight.CommandLine.Report
import ChipEight.Config
import ChipEight.Log
import ChipEight.Text.Decimal

namespace ChipEight

/-- A setting is one choice on the command line. -/
inductive Setting where
  | rom (path : String)
  | archive (path : String)
  | entry (name : String)
  | hertz (rate : UInt64)
  | cyclesPerTick (count : UInt32)
  | seed (value : UInt64)
  | shiftSetsFlag
  | tickWhileBlocked
  | log (path : String)
  | level (filter : Filter)
  deriving DecidableEq

/-- A value flag takes the next argument as its value. -/
inductive ValueFlag where
  | archive
  | entry
  | hertz
  | cyclesPerTick
  | seed
  | log
  | level
  deriving DecidableEq, Repr

/-- The text of a flag starts with two dashes. -/
def ValueFlag.text : ValueFlag → String
  | .archive => "--archive"
  | .entry => "--name"
  | .hertz => "--hz"
  | .cyclesPerTick => "--cycles-per-tick"
  | .seed => "--seed"
  | .log => "--log"
  | .level => "--log-level"

def ValueFlag.all : List ValueFlag := [.archive, .entry, .hertz, .cyclesPerTick, .seed, .log, .level]

def ValueFlag.ofText? (argument : String) : Option ValueFlag :=
  ValueFlag.all.find? fun flag => flag.text == argument

/-- A usage fault concerns the form of the arguments. -/
inductive UsageFault where
  | missingValue (flag : ValueFlag)
  | badNumber (flag : ValueFlag) (fault : NumberFault)
  | badLevel
  | unknownFlag (argument : String)
  | secondRom
  deriving DecidableEq, Repr

def UsageFault.report : UsageFault → Report
  | .missingValue flag => { top := "missing value for " ++ flag.text }
  | .badNumber flag fault => { top := flag.text ++ " expects a number", causes := [fault.message] }
  | .badLevel =>
      { top := "unknown log level"
        causes := ["attempted to convert a string that doesn't match an existing log level"] }
  | .unknownFlag argument => { top := "unknown argument: " ++ argument }
  | .secondRom => { top := "only a single rom can be run" }

/-- A number must fit the type of its setting. -/
def ValueFlag.number (flag : ValueFlag) (limit : Nat) (value : String) : Except UsageFault Nat :=
  (Decimal.parse limit value).mapError (.badNumber flag)

/-- The flag decides how its value is read. -/
def ValueFlag.setting (flag : ValueFlag) (value : String) : Except UsageFault Setting :=
  match flag with
  | .archive => .ok (.archive value)
  | .entry => .ok (.entry value)
  | .hertz => (flag.number UInt64.size value).map fun rate => .hertz (UInt64.ofNat rate)
  | .cyclesPerTick =>
      (flag.number UInt32.size value).map fun count => .cyclesPerTick (UInt32.ofNat count)
  | .seed => (flag.number UInt64.size value).map fun seed => .seed (UInt64.ofNat seed)
  | .log => .ok (.log value)
  | .level =>
      match Filter.parse? value with
      | some filter => .ok (.level filter)
      | none => .error .badLevel

/-- A switch has no value. -/
def Setting.ofSwitch? (argument : String) : Option Setting :=
  if argument = "--shift-quirk" then some .shiftSetsFlag
  else if argument = "--tick-while-blocked" then some .tickWhileBlocked
  else none

/-- The options collect the settings of a command line. -/
structure Options where
  romPath? : Option String := none
  archivePath? : Option String := none
  entryName? : Option String := none
  config : Config := {}
  logPath? : Option String := none
  filter : Filter := .upTo .warn
  deriving DecidableEq

namespace Options

/-- A setting replaces an earlier one of its kind. -/
def put (options : Options) : Setting → Options
  | .rom path => { options with romPath? := some path }
  | .archive path => { options with archivePath? := some path }
  | .entry name => { options with entryName? := some name }
  | .hertz rate => { options with config := { options.config with hertz := rate } }
  | .cyclesPerTick count => { options with config := { options.config with cyclesPerTick := count } }
  | .seed value => { options with config := { options.config with seed := some value } }
  | .shiftSetsFlag => { options with config := { options.config with shiftSetsFlag := true } }
  | .tickWhileBlocked => { options with config := { options.config with tickWhileBlocked := true } }
  | .log path => { options with logPath? := some path }
  | .level filter => { options with filter := filter }

end Options

/-- A request is what the arguments ask for. -/
inductive Request where
  | help
  | run (options : Options)
  deriving DecidableEq

/-- The arguments are read from the left; the first fault or call for help ends the reading. -/
def Options.read (options : Options) : List String → Except UsageFault Request
  | [] => .ok (.run options)
  | argument :: rest =>
      match ValueFlag.ofText? argument, Setting.ofSwitch? argument, rest with
      | some flag, _, [] => .error (.missingValue flag)
      | some flag, _, value :: rest =>
          match flag.setting value with
          | .error fault => .error fault
          | .ok setting => (options.put setting).read rest
      | none, some setting, rest => (options.put setting).read rest
      | none, none, rest =>
          if argument = "--help" ∨ argument = "-h" then .ok .help
          else if argument.startsWith "--" then .error (.unknownFlag argument)
          else if options.romPath?.isSome then .error .secondRom
          else (options.put (.rom argument)).read rest

def Request.parse (arguments : List String) : Except UsageFault Request :=
  Options.read {} arguments

namespace Setting

/-- A setting is written as a flag with a value, as a switch or as a bare path. -/
def arguments : Setting → List String
  | .rom path => [path]
  | .archive path => [ValueFlag.archive.text, path]
  | .entry name => [ValueFlag.entry.text, name]
  | .hertz rate => [ValueFlag.hertz.text, toString rate.toNat]
  | .cyclesPerTick count => [ValueFlag.cyclesPerTick.text, toString count.toNat]
  | .seed value => [ValueFlag.seed.text, toString value.toNat]
  | .shiftSetsFlag => ["--shift-quirk"]
  | .tickWhileBlocked => ["--tick-while-blocked"]
  | .log path => [ValueFlag.log.text, path]
  | .level filter => [ValueFlag.level.text, filter.name]

end Setting
end ChipEight
