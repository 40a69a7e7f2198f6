/-
This file reads decimal numbers.
-/

namespace ChipEight

/-- A text can fail to be a number below a limit in three ways. -/
inductive NumberFault where
  | empty
  | invalidDigit
  | tooLarge
  deriving DecidableEq, Repr

def NumberFault.message : NumberFault → String
  | .empty => "cannot parse integer from empty string"
  | .invalidDigit => "invalid digit found in string"
  | .tooLarge => "number too large to fit in target type"

namespace Decimal

/-- The digits are read from the left, and the first fault wins. -/
def digitsFrom (limit value : Nat) : List Char → Except NumberFault Nat
  | [] => .ok value
  | digit :: rest =>
      if digit.isDigit then
        let next := 10 * value + (digit.toNat - '0'.toNat)
        if next < limit then digitsFrom limit next rest else .error .tooLarge
      else .error .invalidDigit

/-- A plus may stand before the digits; the number lies below the limit. -/
def parse (limit : Nat) (text : String) : Except NumberFault Nat :=
  match text.toList with
  | [] => .error .empty
  | ['+'] => .error .invalidDigit
  | '+' :: digits => digitsFrom limit 0 digits
  | digits => digitsFrom limit 0 digits

end Decimal
end ChipEight
