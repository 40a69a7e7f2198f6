/-
This file reads the lines that the player types.
-/
import ChipEight.Keypad.Layout
import ChipEight.Text.Blank

namespace ChipEight

/-- A line names the keys that are held down, or ends the program. -/
inductive Input where
  | keys (keypad : Keypad)
  | quit
  /-- The bytes are no text, which also ends the program. -/
  | unreadable
  deriving DecidableEq

namespace Input

def ofLine (bytes : List UInt8) : Input :=
  match String.fromUTF8? ⟨bytes.toArray⟩ with
  | none => .unreadable
  | some line =>
      let held := Blank.trim line.toList
      if held = "quit".toList then .quit else .keys (Layout.standard.keypad held)

/-- The part after the last line break is a line only if the bytes have ended there. -/
def linesFrom (ended : Bool) (reversed : List UInt8) : List UInt8 → List (List UInt8)
  | [] => if ended && !reversed.isEmpty then [reversed.reverse] else []
  | byte :: rest =>
      if byte = 0x0A then reversed.reverse :: linesFrom ended [] rest
      else linesFrom ended (byte :: reversed) rest

/-- The end of the bytes ends the program. -/
def ofBytes (ended : Bool) (bytes : List UInt8) : List Input :=
  (linesFrom ended [] bytes).map ofLine ++ (if ended then [.quit] else [])

end Input
end ChipEight
