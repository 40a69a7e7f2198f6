/-
This file maps the keys of a host keyboard to the keypad.
-/
import ChipEight.Keypad

namespace ChipEight

/-- A layout places one host key on each key of the keypad, row by row. -/
structure Layout where
  hostKeys : Vector Char 16

namespace Layout

/-- The keypad itself is a square with these keys, row by row. -/
def keypadKeys : Vector Nibble 16 :=
  #v[0x1, 0x2, 0x3, 0xC,
     0x4, 0x5, 0x6, 0xD,
     0x7, 0x8, 0x9, 0xE,
     0xA, 0x0, 0xB, 0xF]

/-- The left hand side of a keyboard stands in for the keypad. -/
def standard : Layout :=
  ⟨#v['1', '2', '3', '4',
      'q', 'w', 'e', 'r',
      'a', 's', 'd', 'f',
      'z', 'x', 'c', 'v']⟩

/-- The case of a letter of the Latin alphabet does not matter, and the last place wins. -/
def key? (layout : Layout) (host : Char) : Option Nibble :=
  ((List.finRange 16).reverse.find? fun place =>
    layout.hostKeys[place].toLower == host.toLower).map fun place => keypadKeys[place]

/-- Each host key presses its key, and a host key without a place presses none. -/
def press (layout : Layout) (keypad : Keypad) (host : Char) : Keypad :=
  match layout.key? host with
  | some key => keypad.set key true
  | none => keypad

/-- The text names all host keys that are held down. -/
def keypad (layout : Layout) (held : List Char) : Keypad :=
  held.foldl layout.press .released

end Layout
end ChipEight
