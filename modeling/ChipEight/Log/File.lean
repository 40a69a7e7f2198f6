/-
This file opens the file that keeps the log.
-/
import ChipEight.FileTree

namespace ChipEight

/-- A log fault says why the log cannot be kept. -/
inductive LogFault where
  | unopened (fault : InputFault)
  /-- A program keeps only one log. -/
  | installed
  deriving DecidableEq, Repr

def LogFault.message : LogFault → String
  | .unopened fault => "Unable to open the log file: " ++ fault.message
  | .installed => "A logger is already installed."

def LogFault.causes : LogFault → List String
  | .unopened fault => [fault.message]
  | .installed => []

/-- The log file is emptied first, even if there is a log already. -/
def FileTree.installLog (files : FileTree) (installed : Bool) (path? : Option String) :
    Except LogFault FileTree :=
  match path?.map fun path => files.write path [] with
  | some (.error fault) => .error (.unopened fault)
  | some (.ok files) => if installed then .error .installed else .ok files
  | none => if installed then .error .installed else .ok files

end ChipEight
