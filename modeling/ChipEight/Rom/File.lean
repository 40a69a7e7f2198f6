/-
This file takes program images from files.
-/
import ChipEight.FileTree
import ChipEight.Rom

namespace ChipEight

/-- The bytes of a file form an image that has the name of the file. -/
def Rom.ofBytes (path : String) (bytes : Except InputFault (List UInt8)) :
    Except LoadFault Rom :=
  match bytes with
  | .error fault => .error (.unreadable fault)
  | .ok data => Rom.ofData (FileTree.fileName path) data

def Rom.ofFile (files : FileTree) (path : String) : Except LoadFault Rom :=
  Rom.ofBytes path (files.read path)

end ChipEight
