/-
This file computes the results and the flags of the operators on registers.
-/
import ChipEight.Instruction

namespace ChipEight.Operator

/-- All results wrap around at eight bits. -/
def result (operator : Operator) (left right : UInt8) : UInt8 :=
  match operator with
  | .copy => right
  | .or => left ||| right
  | .and => left &&& right
  | .xor => left ^^^ right
  | .add => left + right
  | .subtract => left - right
  | .shiftRight => left >>> 1
  | .subtractFrom => right - left
  | .shiftLeft => left <<< 1

/-- A flag is one byte. -/
def bit (condition : Bool) : UInt8 :=
  if condition then 1 else 0

/-- An addition flags a carry, a subtraction flags that nothing was borrowed, and a shift flags
the bit that it loses if the settings ask for it. -/
def flag? (shiftSetsFlag : Bool) (operator : Operator) (left right : UInt8) : Option UInt8 :=
  match operator with
  | .copy | .or | .and | .xor => none
  | .add => some (bit (decide (0x100 ≤ left.toNat + right.toNat)))
  | .subtract => some (bit (decide (right ≤ left)))
  | .shiftRight => if shiftSetsFlag then some (left &&& 1) else none
  | .subtractFrom => some (bit (decide (left ≤ right)))
  | .shiftLeft => if shiftSetsFlag then some (left >>> 7) else none

end ChipEight.Operator
