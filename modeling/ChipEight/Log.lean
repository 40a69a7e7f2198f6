/-
This file writes log records as lines of text.
-/

namespace ChipEight

/-- The levels lead from the most urgent to the most detailed. -/
inductive Level where
  | error
  | warn
  | info
  | debug
  | trace
  deriving DecidableEq, Repr

namespace Level

def rank : Level → Nat
  | .error => 1
  | .warn => 2
  | .info => 3
  | .debug => 4
  | .trace => 5

def name : Level → String
  | .error => "ERROR"
  | .warn => "WARN"
  | .info => "INFO"
  | .debug => "DEBUG"
  | .trace => "TRACE"

/-- All names fill the same column. -/
def column (level : Level) : String :=
  level.name.pushn ' ' (5 - level.name.length)

end Level

/-- A filter lets through the records up to its level. -/
inductive Filter where
  | off
  | upTo (level : Level)
  deriving DecidableEq, Repr

namespace Filter

def rank : Filter → Nat
  | .off => 0
  | .upTo level => level.rank

def allows (filter : Filter) (level : Level) : Bool :=
  level.rank ≤ filter.rank

def all : List Filter :=
  [.off, .upTo .error, .upTo .warn, .upTo .info, .upTo .debug, .upTo .trace]

def name : Filter → String
  | .off => "OFF"
  | .upTo level => level.name

/-- The case of a name does not matter. -/
def parse? (text : String) : Option Filter :=
  all.find? fun filter => filter.name == text.toUpper

end Filter

/-- A record tells which part of the program says what, and how urgent it is. -/
structure Record where
  level : Level
  target : String
  message : String
  deriving DecidableEq, Repr

/-- The line shows the level, the target in brackets and the message. -/
def Record.line (record : Record) : String :=
  record.level.column ++ " [" ++ record.target ++ "] " ++ record.message

namespace Filter

/-- The filter keeps the order of the records. -/
def select (filter : Filter) (records : List Record) : List Record :=
  records.filter fun record => filter.allows record.level

/-- The text has one line for each record that the filter lets through. -/
def text (filter : Filter) (records : List Record) : String :=
  String.join ((filter.select records).map fun record => record.line ++ "\n")

end Filter
end ChipEight
