/-
This file reads log records back from the text of a log.
-/
import Mathlib.Data.List.SplitOn
import ChipEight.Log

namespace ChipEight

namespace Level

def all : List Level := [.error, .warn, .info, .debug, .trace]

def ofColumn? (column : List Char) : Option Level :=
  all.find? fun level => level.column.toList = column

end Level

/-- The column and the first bracket have fixed places, and the next closing bracket ends the target. -/
def Record.ofLine? (line : List Char) : Option Record :=
  match Level.ofColumn? (line.take 5) with
  | none => none
  | some level =>
      let target := (line.drop 7).takeWhile (· ≠ ']')
      let message := line.drop (9 + target.length)
      let record := ⟨level, String.ofList target, String.ofList message⟩
      if record.line.toList = line then some record else none

namespace Log

/-- A line ends with its newline, so what follows the last one is not a line. -/
def lines (text : String) : List (List Char) :=
  (text.toList.splitOn '\n').dropLast

/-- Lines of another form are passed over. -/
def read (text : String) : List Record :=
  (lines text).filterMap Record.ofLine?

end Log
end ChipEight
