/-
This file writes lengths of time.
-/

namespace ChipEight.Interval

/-- The digits of a fraction count its units; its trailing zeros are left out. -/
def fraction (places value : Nat) : String :=
  let digits := Nat.toDigits 10 value
  let padded := List.replicate (places - digits.length) '0' ++ digits
  String.ofList (padded.reverse.dropWhile (· == '0')).reverse

/-- A decimal without a fraction has no point. -/
def decimal (places value : Nat) : String :=
  let whole := toString (value / Nat.pow 10 places)
  let rest := fraction places (value % Nat.pow 10 places)
  if rest.isEmpty then whole else whole ++ "." ++ rest

/-- The largest unit of which the time has at least one counts, and no time is in nanoseconds. -/
def text (microseconds : Nat) : String :=
  if 1000000 ≤ microseconds then decimal 6 microseconds ++ "s"
  else if 1000 ≤ microseconds then decimal 3 microseconds ++ "ms"
  else if 0 < microseconds then toString microseconds ++ "µs"
  else "0ns"

end ChipEight.Interval
