/-
This file says what a machine reports while it runs.
-/
import ChipEight.Log
import ChipEight.Machine.Step
import ChipEight.Text.Interval

namespace ChipEight

/-- An event is worth a record in the log. -/
inductive Event where
  | loaded (name : String) (size : Nat)
  /-- A step found no program. -/
  | unloaded
  | fetchFailed (fault : WordFault)
  | fetched (counter word : Word)
  | failed (counter word : Word) (fault : Fault)
  | beep
  /-- An instruction of the family `0` begins. -/
  | system (word : Word)
  /-- A return takes this address from the stack. -/
  | returning (address : Word)
  | awaitingKey
  /-- The clock starts with this interval. -/
  | started (interval : Nat)
  /-- The clock ends because of the fault. -/
  | stopped (fault : Fault)
  | unreadableInput
  deriving DecidableEq, Repr

namespace Event

def level : Event → Level
  | .loaded _ _ | .started _ => .info
  | .unloaded | .fetchFailed _ | .failed _ _ _ | .stopped _ | .unreadableInput => .error
  | .beep | .system _ | .returning _ | .awaitingKey => .debug
  | .fetched _ _ => .trace

def target : Event → String
  | .loaded _ _ | .unloaded | .fetchFailed _ | .fetched _ _ | .failed _ _ _ | .beep =>
      "chip::chip8::chipset"
  | .system _ | .returning _ | .awaitingKey => "chip::chip8::opcodes"
  | .started _ | .stopped _ => "chip::runner"
  | .unreadableInput => "chip8_vm"

/-- The place is the program counter and the word at it. -/
def place (counter word : Word) : String :=
  "0x" ++ Hex.upper 4 counter.toNat ++ "\t0x" ++ Hex.upper 4 word.toNat

def message : Event → String
  | .loaded name size => "loaded rom '" ++ name ++ "' (" ++ toString size ++ " bytes)"
  | .unloaded => "No rom is loaded!"
  | .fetchFailed fault => fault.message
  | .fetched counter word => place counter word
  | .failed counter word fault => place counter word ++ ": " ++ fault.message
  | .beep => "beep"
  | .system word => "opcode 0x" ++ Hex.upper 1 word.toNat
  | .returning address => "pc 0x" ++ Hex.upper 1 address.toNat
  | .awaitingKey => "waiting for a key press"
  | .started interval => "running at an interval of " ++ Interval.text interval
  | .stopped fault => "Stopping execution: " ++ fault.message
  | .unreadableInput => "unable to read the input: stream did not contain valid UTF-8"

def record (event : Event) : Record where
  level := event.level
  target := event.target
  message := event.message

end Event

namespace Machine

/-- A return names the address it takes, and a wait says that it waits. -/
def performEvents (machine : Machine) : Instruction → List Event
  | .leave => machine.stack.calls.head?.toList.map .returning
  | .awaitKey _ => if machine.keypad.highest?.isNone then [.awaitingKey] else []
  | _ => []

/-- The family `0` reports every word, even one that it then refuses. -/
def handleEvents (machine : Machine) (family : Nibble) (word : Word) : List Event :=
  (if family = 0 then [.system word] else []) ++
    match Instruction.decode? family word with
    | some instruction => machine.performEvents instruction
    | none => []

def executeEvents (machine : Machine) (word : Word) : List Event :=
  machine.handleEvents word.family word

/-- The outcome of the fetched word is a failure, a beep, or nothing to report. -/
def outcomeEvents (machine : Machine) (word : Word) : Except Fault Step → List Event
  | .error fault => [.failed machine.counter word fault]
  | .ok step => if step.beep then [.beep] else []

/-- A step with this outcome reports the fetched word, then what its instruction reports, then the
outcome. -/
def stepEvents (machine : Machine) (outcome : Except Fault Step) : List Event :=
  if machine.loaded then
    match machine.fetch with
    | .error fault => [.fetchFailed fault]
    | .ok word =>
        .fetched machine.counter word ::
          (machine.executeEvents word ++ machine.outcomeEvents word outcome)
  else
    [.unloaded]

end Machine
end ChipEight
