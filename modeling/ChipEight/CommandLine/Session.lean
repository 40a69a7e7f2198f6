/-
This file plays a program in a terminal, from its arguments to its last line.
-/
import ChipEight.CommandLine.Input
import ChipEight.CommandLine.Launch
import ChipEight.CommandLine.Usage
import ChipEight.Log.File
import ChipEight.Runner

namespace ChipEight

namespace Terminal

/-- The terminal is cleared once. -/
def clear : String := "\x1b[2J"

/-- A frame starts at the upper left corner and shows one line for each row. -/
def frame (display : Display) : String :=
  let row (y : Fin 32) : String :=
    String.ofList ((List.finRange 64).map fun x => if display.pixel x y then '█' else ' ') ++ "\n"
  "\x1b[H" ++ String.join ((List.finRange 32).map row)

def bell : String := "\x07"

/-- The bell follows the frame of the same tick. -/
def tick (forwarded : Forwarded Display) : String :=
  (match forwarded.frame? with | some display => frame display | none => "") ++
    (if forwarded.beep then bell else "")

end Terminal

/-- A play ends with a fault or by the player, unless its limit ends it first. -/
inductive Ending where
  | fault (fault : Fault)
  | quit
  | unfinished
  deriving DecidableEq, Repr

/-- A play has shown its output and reported its events. -/
structure Play where
  output : String
  events : Array Event
  ending : Ending

/-- The pace of a play is counted in ticks. -/
structure Pace where
  /-- The player looks this long at a machine that does not wait. -/
  patience : Nat
  /-- The play is broken off after this many ticks. -/
  limit : Nat

/-- A machine that waits for a key gets the next line at once, and any other machine when the
patience of the player is over. -/
def Pace.isLineDue (pace : Pace) (step : Step) (idle : Nat) : Bool :=
  match step with
  | .blocked _ => true
  | .executed _ => decide (pace.patience ≤ idle)

/-- The keys of a line stay down until the line after it. The idle ticks are those since the last
line. -/
def Machine.play (machine : Machine) (inputs : List Input) (pace : Pace) (idle : Nat)
    (output : String) (events : Array Event) : Nat → Play
  | 0 => ⟨output, events, .unfinished⟩
  | limit + 1 =>
      let tick := machine.tick
      let events := events ++ (machine.stepEvents tick.result).toArray
      let output := output ++ Terminal.tick tick.forwarded
      match tick.result with
      | .error fault => ⟨output, events.push (.stopped fault), .fault fault⟩
      | .ok step =>
          match pace.isLineDue step idle, inputs with
          | true, .keys keypad :: rest =>
              (tick.machine.setKeypad keypad).play rest pace 0 output events limit
          | true, .quit :: _ => ⟨output, events, .quit⟩
          | true, .unreadable :: _ => ⟨output, events.push .unreadableInput, .quit⟩
          | _, _ => tick.machine.play inputs pace (idle + 1) output events limit

/-- A transcript is what a program leaves behind. -/
structure Transcript where
  code : Nat
  stdout : String := ""
  stderr : String := ""
  files : FileTree

namespace Session

/-- A failure ends with its report. -/
def failed (files : FileTree) (report : Report) : Transcript :=
  { code := 1, stderr := report.text, files := files }

/-- The log goes to its file, or else to the standard error stream. -/
def logged (files : FileTree) (options : Options) (events : List Event) : FileTree × String :=
  let text := options.filter.text (events.map Event.record)
  match options.logPath? with
  | none => (files, text)
  | some path =>
      match files.write path text.toUTF8.data.toList with
      | .ok files => (files, "")
      | .error _ => (files, "")

/-- The last report names the fault that stopped the program. -/
def closing : Ending → Option Report
  | .fault fault => some { top := "the program stopped", causes := fault.message :: fault.causes }
  | .quit => none
  | .unfinished => none

/-- The program runs from its first frame to its end. -/
def run (files : FileTree) (options : Options) (rom : Rom) (source : Generator)
    (inputs : List Input) (pace : Pace) : Transcript :=
  let machine := (Machine.initial options.config source).load rom
  let opening : Array Event :=
    #[.loaded rom.name rom.data.length, .started options.config.interval]
  let play := machine.play inputs pace 0 Terminal.clear opening pace.limit
  let (files, log) := logged files options play.events.toList
  match closing play.ending with
  | some report =>
      { code := 1, stdout := play.output, stderr := log ++ report.text, files := files }
  | none => { code := 0, stdout := play.output, stderr := log, files := files }

/-- The log is opened before the program is read, and nothing is logged if there is none. -/
def launch (files : FileTree) (options : Options) (source : Generator)
    (inputs : List Input) (pace : Pace) : Transcript :=
  match files.installLog false options.logPath? with
  | .error fault => failed files { top := fault.message, causes := fault.causes }
  | .ok files =>
      match options.source with
      | .error .noRom =>
          let transcript := failed files LaunchFault.noRom.report
          { transcript with stderr := usageText ++ transcript.stderr }
      | .error fault => failed files fault.report
      | .ok place =>
          match place.rom (files.read place.path) with
          | .error fault => failed files fault.report
          | .ok rom => run files options rom source inputs pace

/-- The arguments come first; a call for help shows the usage and ends well. -/
def start (files : FileTree) (arguments : List String) (source : Generator)
    (inputs : List Input) (pace : Pace) : Transcript :=
  match Request.parse arguments with
  | .error fault => failed files fault.report
  | .ok .help => { code := 0, stderr := usageText, files := files }
  | .ok (.run options) => launch files options source inputs pace

end Session
end ChipEight
