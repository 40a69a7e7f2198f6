/-
This file follows a keypad through a list of reports about its keys.
-/
import ChipEight.Keypad

namespace ChipEight

namespace Keypad

/-- A report tells about one key or about the whole keypad. -/
inductive Report where
  | set (key : Nibble) (pressed : Bool)
  | toggle (key : Nibble)
  | replace (keypad : Keypad)
  | reset
  deriving DecidableEq

namespace Report

def touches (key : Nibble) : Report → Bool
  | .set other _ | .toggle other => other = key
  | .replace _ | .reset => true

/-- A toggle is the only report that does not say in which state a key is. -/
def state? (key : Nibble) : Report → Option Bool
  | .set other pressed => if other = key then some pressed else none
  | .toggle _ => none
  | .replace keypad => some (keypad.keys.get key)
  | .reset => some false

/-- The state of a key after a report follows from its state before. -/
def turn (key : Nibble) (pressed : Bool) : Report → Bool
  | .set other state => if other = key then state else pressed
  | .toggle other => if other = key then !pressed else pressed
  | .replace keypad => keypad.keys.get key
  | .reset => false

/-- The reports that touch a key keep their order. -/
def own (key : Nibble) (reports : List Report) : List Report :=
  reports.filter (touches key)

end Report

def apply (keypad : Keypad) : Report → Keypad
  | .set key pressed => keypad.set key pressed
  | .toggle key => keypad.toggle key
  | .replace keypad => keypad
  | .reset => .released

/-- The reports are applied one after another. -/
def after (keypad : Keypad) (reports : List Report) : Keypad :=
  reports.foldl apply keypad

@[simp] theorem after_nil (keypad : Keypad) : keypad.after [] = keypad := rfl

@[simp] theorem after_cons (keypad : Keypad) (report : Report) (rest : List Report) :
    keypad.after (report :: rest) = (keypad.apply report).after rest := rfl

theorem after_append (keypad : Keypad) (first second : List Report) :
    keypad.after (first ++ second) = (keypad.after first).after second :=
  List.foldl_append

end Keypad
end ChipEight
