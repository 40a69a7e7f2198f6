/-
This file holds a layout as a table, and a text as an array of keys that it presses one after another.
The table hashes a letter by its code, with the instance of `Mathlib.Util.Superscript`.
-/
import Mathlib.Util.Superscript
import ChipEight.Bare
import ChipEight.Keypad.Layout

namespace ChipEight.Bare

/-- A later place takes over the letter of an earlier one. -/
def fill (layout : Layout) (places : List Nibble) : Std.HashMap Char Nibble :=
  places.foldl (fun table place =>
    table.insert (layout.hostKeys.get place).toLower (Layout.keypadKeys.get place)) ∅

/-- The table is filled row by row. -/
def table (layout : Layout) : Std.HashMap Char Nibble := fill layout (List.finRange 16)

/-- A letter that is not in the table is passed over. -/
def pressAll (table : Std.HashMap Char Nibble) (keys : Array Bool) :
    List Char → Except Panic (Array Bool)
  | [] => .ok keys
  | host :: rest =>
      match table[host.toLower]? with
      | none => pressAll table keys rest
      | some key =>
          match replace keys key.val true with
          | .error panic => .error panic
          | .ok keys => pressAll table keys rest

end ChipEight.Bare
