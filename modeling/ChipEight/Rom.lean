/-
This file holds program images and the rule on their size.
-/
import ChipEight.Archive.Fault
import ChipEight.Memory

namespace ChipEight

/-- A load fault says why there is no program image. -/
inductive LoadFault where
  | empty (name : String)
  | tooLarge (size capacity : Nat)
  | unreadable (fault : InputFault)
  | archive (fault : ArchiveFault)
  deriving DecidableEq, Repr

def LoadFault.message : LoadFault → String
  | .empty name => "The rom '" ++ name ++ "' does not contain any data."
  | .tooLarge size capacity =>
      "The rom is " ++ toString size ++ " bytes long, but only " ++ toString capacity ++
        " bytes are available."
  | .unreadable fault => "Unable to read the rom: " ++ fault.message
  | .archive fault => "Unable to extract the rom from the archive: " ++ fault.message

/-- The causes lead from the fault to its innermost reason. -/
def LoadFault.causes : LoadFault → List String
  | .empty _ => []
  | .tooLarge _ _ => []
  | .unreadable fault => [fault.message]
  | .archive fault => fault.message :: fault.causes

/-- A program image is not empty and fits behind the start of the program. -/
structure Rom where
  name : String
  data : List UInt8
  nonempty : data ≠ []
  fits : data.length ≤ Memory.programCapacity

/-- The size of the data decides whether it is a program image. -/
def Rom.ofData (name : String) (data : List UInt8) : Except LoadFault Rom :=
  if filled : data = [] then
    .error (.empty name)
  else if fits : data.length ≤ Memory.programCapacity then
    .ok ⟨name, data, filled, fits⟩
  else
    .error (.tooLarge data.length Memory.programCapacity)

end ChipEight
