/-
This file writes the report of an error with its causes.
-/

namespace ChipEight

/-- The report starts with the outermost error; the causes lead inward. -/
structure Report where
  top : String
  causes : List String := []

namespace Report

/-- Later lines of a text start below its first line. -/
def indent (first later text : String) : String :=
  first ++ String.intercalate ("\n" ++ later) (text.splitOn "\n")

/-- The number of a cause is right-aligned. -/
def numbered (entry : String × Nat) : String :=
  let number := toString entry.2
  "\n" ++ indent ("".pushn ' ' (5 - number.length) ++ number ++ ": ") "       " entry.1

/-- A single cause has no number. -/
def causesText : List String → String
  | [] => ""
  | [cause] => "\n\nCaused by:\n" ++ indent "    " "    " cause
  | causes => "\n\nCaused by:" ++ String.join (causes.zipIdx.map numbered)

def text (report : Report) : String :=
  "Error: " ++ report.top ++ causesText report.causes ++ "\n"

end Report
end ChipEight
