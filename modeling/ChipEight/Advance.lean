/-
This file holds the ways in which an instruction moves the program counter.
-/
import ChipEight.Word

namespace ChipEight

/-- An instruction stays, moves on by one or two instructions, or jumps. -/
inductive Advance where
  | stay
  | next
  | skip
  | jump (target : Word)
  deriving DecidableEq, Repr

namespace Advance

/-- An instruction word takes two bytes. -/
def wordSize : Word := 2

def skipIf (condition : Bool) : Advance :=
  if condition then .skip else .next

/-- The program counter wraps around at sixteen bits. -/
def apply (advance : Advance) (counter : Word) : Word :=
  match advance with
  | .stay => counter
  | .next => counter + wordSize
  | .skip => counter + 2 * wordSize
  | .jump target => target

end Advance
end ChipEight
