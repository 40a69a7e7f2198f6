/-
This file connects a session to a real terminal: its streams, its files and its time.
-/
import ChipEight.CommandLine.Session

namespace ChipEight.Console

/-- The system numbers its failures, and a negative number stands for its absolute value. -/
def failureNumber (code : UInt32) : Nat :=
  min code.toNat (0 - code).toNat

def inputFault : IO.Error → InputFault
  | .noFileOrDirectory _ _ _ => .notFound
  | .inappropriateType file code details =>
      match failureNumber code with
      | 20 => .notDirectory
      | 21 => .isDirectory
      | _ => .other (toString (IO.Error.inappropriateType file code details))
  | .invalidArgument file code details =>
      match failureNumber code with
      | 36 => .nameTooLong
      | _ => .other (toString (IO.Error.invalidArgument file code details))
  | error => .other (toString error)

def readBytes (path : String) : IO (Except InputFault (List UInt8)) := do
  try
    let data ← IO.FS.readBinFile path
    return .ok data.toList
  catch error =>
    return .error (inputFault error)

/-- The log goes to a file or to the standard error stream. -/
def openLog (path? : Option String) : IO (Except LogFault IO.FS.Stream) := do
  match path? with
  | none => return .ok (← IO.getStderr)
  | some path =>
      try
        let handle ← IO.FS.Handle.mk path .write
        return .ok (IO.FS.Stream.ofHandle handle)
      catch error =>
        return .error (.unopened (inputFault error))

def writeLog (log : IO.FS.Stream) (filter : Filter) (events : List Event) : IO Unit :=
  log.putStr (filter.text (events.map Event.record))

/-- The reader hands over one input for each line, and the end of the input quits. -/
partial def readInputs (stream : IO.FS.Stream) (queue : IO.Ref (List Input))
    (line : ByteArray) : IO Unit := do
  let bytes ← stream.read 1
  if bytes.isEmpty then
    queue.modify (· ++ Input.ofBytes true line.toList)
  else
    let line := line ++ bytes
    if bytes.toList = [0x0A] then
      let inputs := Input.ofBytes false line.toList
      queue.modify (· ++ inputs)
      if inputs.any (fun input => input = .quit ∨ input = .unreadable) then return
      readInputs stream queue .empty
    else
      readInputs stream queue line

/-- The pause between two looks at the input, in nanoseconds. -/
def pollPause : Nat := 10000000

/-- The clock of the terminal has a next tick and a next look at the input. -/
structure Schedule where
  interval : Nat
  nextTick : Nat
  nextPoll : Nat

/-- The program runs in time until a fault stops it or the player quits. -/
partial def play (machine : Machine) (schedule : Schedule) (queue : IO.Ref (List Input))
    (report : List Event → IO Unit) : IO Ending := do
  let now ← IO.monoNanosNow
  if schedule.nextPoll ≤ now then
    let schedule := { schedule with nextPoll := now + pollPause }
    match ← queue.modifyGet fun inputs => (inputs.head?, inputs.tail) with
    | some (.keys keypad) => play (machine.setKeypad keypad) schedule queue report
    | some .quit => return .quit
    | some .unreadable =>
        report [.unreadableInput]
        return .quit
    | none => play machine schedule queue report
  else if schedule.nextTick ≤ now then
    let tick := machine.tick
    report (machine.stepEvents tick.result)
    let stdout ← IO.getStdout
    stdout.putStr (Terminal.tick tick.forwarded)
    stdout.flush
    match tick.result with
    | .error fault =>
        report [.stopped fault]
        return .fault fault
    | .ok _ =>
        play tick.machine { schedule with nextTick := now + schedule.interval } queue report
  else
    let pause := min schedule.nextTick schedule.nextPoll - now
    IO.sleep (UInt32.ofNat (pause / 1000000))
    play machine schedule queue report

/-- A machine without a seed gets one from the system. -/
def systemSource : IO Generator := do
  let bytes ← IO.getRandomBytes 8
  return .seeded (.ofSeed (UInt64.ofNat (Fields.value bytes.toList)))

def fail (report : Report) : IO UInt32 := do
  IO.eprint report.text
  return 1

def run (options : Options) (rom : Rom) (log : IO.FS.Stream) : IO UInt32 := do
  let report := writeLog log options.filter
  let machine := (Machine.initial options.config (← systemSource)).load rom
  IO.print Terminal.clear
  report [.loaded rom.name rom.data.length, .started options.config.interval]
  let queue ← IO.mkRef []
  let stdin ← IO.getStdin
  let _ ← IO.asTask (readInputs stdin queue .empty) .dedicated
  let now ← IO.monoNanosNow
  let interval := options.config.interval * 1000
  let ending ← play machine ⟨interval, now + interval, now + pollPause⟩ queue report
  log.flush
  match Session.closing ending with
  | some failure => fail failure
  | none => return 0

def launch (options : Options) : IO UInt32 := do
  match ← openLog options.logPath? with
  | .error fault => fail { top := fault.message, causes := fault.causes }
  | .ok log =>
      match options.source with
      | .error fault =>
          if fault = .noRom then IO.eprint usageText
          fail fault.report
      | .ok source =>
          match source.rom (← readBytes source.path) with
          | .error fault => fail fault.report
          | .ok rom => run options rom log

end ChipEight.Console

/-- The exit code tells whether the program ended well. -/
def main (arguments : List String) : IO UInt32 :=
  match ChipEight.Request.parse arguments with
  | .error fault => ChipEight.Console.fail fault.report
  | .ok .help => do
      IO.eprint ChipEight.usageText
      return 0
  | .ok (.run options) => ChipEight.Console.launch options
