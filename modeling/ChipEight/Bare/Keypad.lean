/-
This file keeps the keys in an array, whose places are checked, and scans it for a pressed key.
-/
import ChipEight.Bare
import ChipEight.Keypad.Report

namespace ChipEight.Bare

/-- The lowest key comes first. -/
abbrev Keys := Array Bool

namespace Keys

/-- A report about one key has to find its place. -/
def apply (keys : Keys) : Keypad.Report → Except Panic Keys
  | .set key pressed => replace keys key.val pressed
  | .toggle key => do
      let pressed ← item keys key.val
      replace keys key.val (!pressed)
  | .replace keypad => .ok keypad.keys.toArray
  | .reset => .ok (Array.replicate Keypad.size false)

def after (keys : Keys) (reports : List Keypad.Report) : Except Panic Keys :=
  reports.foldlM apply keys

/-- A position without a key has no state. -/
def isPressed? (keys : Keys) (position : Nat) : Option Bool := keys[position]?

/-- The scan goes down from the stop, and the first pressed key ends it. -/
def scan (keys : Keys) : Nat → Option Nat
  | 0 => none
  | position + 1 => if keys[position]? = some true then some position else scan keys position

def highest? (keys : Keys) : Option Nat := scan keys keys.size

end Keys
end ChipEight.Bare
