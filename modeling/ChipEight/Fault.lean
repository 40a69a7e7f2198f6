/-
This file names the ways in which an instruction can fail, and their wording.
-/
import ChipEight.Text.Hex

namespace ChipEight

/-- A word fault concerns the instruction word itself. -/
inductive WordFault where
  /-- No instruction has this word. -/
  | unsupported (word : UInt16)
  /-- The two bytes at the pointer do not both lie inside the data. -/
  | outside (pointer length : Nat)
  deriving DecidableEq, Repr

def WordFault.message : WordFault → String
  | .unsupported word =>
      "An unsupported opcode was used 0x" ++ Hex.upper 4 word.toNat ++ "."
  | .outside pointer length =>
      "Pointer location invalid there can not be an opcode at " ++ toString pointer ++
        ", if data len is " ++ toString length

/-- A stack fault is a call without room or a return without a call. -/
inductive StackFault where
  | full
  | empty
  deriving DecidableEq, Repr

def StackFault.message : StackFault → String
  | .full => "Stack is full!"
  | .empty => "Stack is empty!"

/-- A fault stops the machine for good. -/
inductive Fault where
  | word (fault : WordFault)
  | stack (fault : StackFault)
  /-- The glyph would start at a location outside the font. -/
  | glyph (location : Nat)
  /-- There is no program to execute. -/
  | unloaded
  deriving DecidableEq, Repr

def Fault.message : Fault → String
  | .word fault => "Invalid opcode state '" ++ fault.message ++ "'."
  | .stack fault => "Invalid stack state '" ++ fault.message ++ "'."
  | .glyph location => "Accessing the font out of bounds at 0x" ++ Hex.upper 4 location ++ "."
  | .unloaded => "There is no valid chipset initialized."

/-- The causes lead from the fault to its innermost reason. -/
def Fault.causes : Fault → List String
  | .word fault => [fault.message]
  | .stack fault => [fault.message]
  | .glyph _ => []
  | .unloaded => []

end ChipEight
