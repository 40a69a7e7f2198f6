/-
This file writes numbers in base sixteen.
-/

namespace ChipEight.Hex

/-- The text holds the upper case digits of the value, padded with zeros to the width. -/
def upper (width value : Nat) : String :=
  let digits := (Nat.toDigits 16 value).map Char.toUpper
  String.ofList (List.replicate (width - digits.length) '0' ++ digits)

end ChipEight.Hex
