/-
This file shows which key of the keypad a host key presses, and which keypad a text stands for.
-/
import Mathlib.Data.List.Induction
import ChipEight.Bare.Layout
import ChipEight.Proofs.Letters

namespace ChipEight

namespace Layout

section Places

variable (layout : Layout)

/-- The last place, row by row, that has the letter of the character. -/
structure IsLast (place : Nibble) (host : Char) : Prop where
  here : SameLetter (layout.hostKeys.get place) host
  last (later : Nibble) : place < later → ¬ SameLetter (layout.hostKeys.get later) host

/-- The last place of a letter names its key, and a letter without a place has none. A table that is
filled row by row gives the same keys. -/
structure Maps : Prop where
  mapped (host : Char) (key : Nibble) : layout.key? host = some key ↔
    ∃ place, layout.IsLast place host ∧ keypadKeys.get place = key
  unmapped (host : Char) : layout.key? host = none ↔
    ∀ place : Nibble, ¬ SameLetter (layout.hostKeys.get place) host
  inPlace (host : Char) : (Bare.table layout)[host.toLower]? = layout.key? host

theorem key?_eq (host : Char) : layout.key? host =
    ((List.finRange 16).reverse.find? fun place =>
      (layout.hostKeys.get place).toLower == host.toLower).map keypadKeys.get := rfl

theorem key?_eq_some_iff (host : Char) (key : Nibble) :
    layout.key? host = some key ↔ ∃ place, layout.IsLast place host ∧ keypadKeys.get place = key := by
  rw [key?_eq, Option.map_eq_some_iff]
  refine exists_congr fun place => and_congr_left fun _ => ?_
  rw [Keypad.findHighest]
  simp only [beq_iff_eq, toLower_eq_iff]
  constructor
  · rintro ⟨here, highest⟩
    exact ⟨here, fun later above same => Nat.not_lt.mpr (highest later same) above⟩
  · rintro ⟨here, last⟩
    exact ⟨here, fun other same => Nat.not_lt.mp fun above => last other above same⟩

theorem key?_eq_none_iff (host : Char) :
    layout.key? host = none ↔ ∀ place : Nibble, ¬ SameLetter (layout.hostKeys.get place) host := by
  simp [key?_eq, List.find?_eq_none, toLower_eq_iff]

/-- Characters of one letter press the same key. -/
theorem key?_congr {left right : Char} (same : SameLetter left right) :
    layout.key? left = layout.key? right := by
  rw [key?_eq, key?_eq, (toLower_eq_iff left right).mpr same]

theorem getElem?_fill (places : List Nibble) (letter : Char) :
    (Bare.fill layout places)[letter]? =
      (places.reverse.find? fun place => (layout.hostKeys.get place).toLower == letter).map
        keypadKeys.get := by
  induction places using List.reverseRecOn with
  | nil => simp [Bare.fill]
  | append_singleton places place inductionHypothesis =>
      have shape : Bare.fill layout (places ++ [place]) =
          (Bare.fill layout places).insert (layout.hostKeys.get place).toLower (keypadKeys.get place) := by
        rw [Bare.fill, List.foldl_append]
        rfl
      rw [shape, Std.HashMap.getElem?_insert, inductionHypothesis, List.reverse_append,
        List.reverse_singleton, List.singleton_append, List.find?_cons]
      cases (layout.hostKeys.get place).toLower == letter <;> rfl

theorem maps : Maps layout :=
  ⟨layout.key?_eq_some_iff, layout.key?_eq_none_iff, fun host => layout.getElem?_fill _ host.toLower⟩

end Places

section Texts

variable (layout : Layout)

/-- A text presses the keys of its characters, no matter in which order, how often and in which case
they stand in it, and what stands between them that has no key. -/
structure Presses : Prop where
  pressed (held : List Char) (key : Nibble) : (layout.keypad held).keys.get key = true ↔
    ∃ host ∈ held, layout.key? host = some key
  rearranged (held other : List Char) : (∀ host, host ∈ held ↔ host ∈ other) →
    layout.keypad held = layout.keypad other
  recased (held other : List Char) : List.Forall₂ SameLetter held other →
    layout.keypad held = layout.keypad other
  unmapped (before after : List Char) (host : Char) : layout.key? host = none →
    layout.keypad (before ++ host :: after) = layout.keypad (before ++ after)
  joined (first second : List Char) (key : Nibble) :
    (layout.keypad (first ++ second)).keys.get key =
      ((layout.keypad first).keys.get key || (layout.keypad second).keys.get key)
  inPlace (held : List Char) : Bare.pressAll (Bare.table layout) (Array.replicate 16 false) held =
    .ok (layout.keypad held).keys.toArray

theorem get_press (keypad : Keypad) (host : Char) (key : Nibble) :
    (layout.press keypad host).keys.get key = true ↔
      layout.key? host = some key ∨ keypad.keys.get key = true := by
  unfold press
  cases layout.key? host with
  | none => simp
  | some pressed =>
      rw [Keypad.getSet, Option.some.injEq]
      by_cases here : pressed = key <;> simp [here]

theorem get_foldl_press (keypad : Keypad) (held : List Char) (key : Nibble) :
    (held.foldl layout.press keypad).keys.get key = true ↔
      keypad.keys.get key = true ∨ ∃ host ∈ held, layout.key? host = some key := by
  induction held generalizing keypad with
  | nil => simp
  | cons host rest inductionHypothesis =>
      rw [List.foldl_cons, inductionHypothesis, get_press]
      simp only [List.mem_cons, exists_eq_or_imp]
      tauto

theorem get_keypad (held : List Char) (key : Nibble) :
    (layout.keypad held).keys.get key = true ↔ ∃ host ∈ held, layout.key? host = some key := by
  have released : Keypad.released.keys.get key = false := Vector.getElem_replicate _
  rw [keypad, get_foldl_press, released]
  simp

/-- Only the set of keys that a text presses matters. -/
theorem keypad_congr {held other : List Char}
    (same : ∀ key, (∃ host ∈ held, layout.key? host = some key) ↔
      ∃ host ∈ other, layout.key? host = some key) :
    layout.keypad held = layout.keypad other := by
  refine Keypad.ext fun key => ?_
  rw [Bool.eq_iff_iff, get_keypad, get_keypad, same]

theorem keypad_recased {held other : List Char} (recased : List.Forall₂ SameLetter held other) :
    layout.keypad held = layout.keypad other := by
  have keys : held.map layout.key? = other.map layout.key? := by
    induction recased with
    | nil => rfl
    | cons same _ inductionHypothesis =>
        rw [List.map_cons, List.map_cons, layout.key?_congr same, inductionHypothesis]
  refine layout.keypad_congr fun key => ?_
  rw [← List.mem_map, ← List.mem_map, keys]

theorem pressAll_keypad (keypad : Keypad) (held : List Char) :
    Bare.pressAll (Bare.table layout) keypad.keys.toArray held =
      .ok (held.foldl layout.press keypad).keys.toArray := by
  induction held generalizing keypad with
  | nil => rfl
  | cons host rest inductionHypothesis =>
      rw [Bare.pressAll, layout.maps.inPlace, List.foldl_cons, press]
      cases layout.key? host with
      | none => exact inductionHypothesis keypad
      | some key =>
          have inside : key.val < keypad.keys.toArray.size := by simp
          simp only [Bare.replace, dif_pos inside]
          exact inductionHypothesis (keypad.set key true)

theorem presses : Presses layout where
  pressed := layout.get_keypad
  rearranged held other same := layout.keypad_congr fun key =>
    exists_congr fun host => and_congr_left fun _ => same host
  recased held other := layout.keypad_recased
  unmapped before after host unmapped := layout.keypad_congr fun key => by
    simp only [List.mem_append, List.mem_cons, or_and_right, exists_or, exists_eq_left, unmapped,
      reduceCtorEq, false_or]
  joined first second key := by
    rw [Bool.eq_iff_iff, Bool.or_eq_true, get_keypad, get_keypad, get_keypad]
    simp only [List.mem_append, or_and_right, exists_or]
  inPlace held := layout.pressAll_keypad .released held

end Texts

section Distinct

variable {layout : Layout}

/-- No letter has two places. -/
def Distinct (layout : Layout) : Prop :=
  ∀ place other : Nibble, SameLetter (layout.hostKeys.get place) (layout.hostKeys.get other) → place = other

/-- Each key belongs to one place of the layout, so there is a text for every keypad. -/
structure Covers (layout : Layout) : Prop where
  once (key : Nibble) : ∃! place : Nibble, layout.key? (layout.hostKeys.get place) = some key
  produced (keypad : Keypad) : ∃ held, layout.keypad held = keypad

theorem keypadKeys_injective :
    ∀ place other : Nibble, keypadKeys.get place = keypadKeys.get other → place = other := by decide

theorem keypadKeys_surjective : ∀ key : Nibble, ∃ place : Nibble, keypadKeys.get place = key := by
  decide

theorem Distinct.key?_hostKey (distinct : layout.Distinct) (place : Nibble) :
    layout.key? (layout.hostKeys.get place) = some (keypadKeys.get place) := by
  refine (layout.key?_eq_some_iff _ _).mpr ⟨place, ⟨.inl rfl, fun later above same => ?_⟩, rfl⟩
  exact absurd (distinct later place same) (Fin.ne_of_gt above)

theorem Distinct.covers (distinct : layout.Distinct) : Covers layout where
  once key := by
    obtain ⟨place, rfl⟩ := keypadKeys_surjective key
    refine ⟨place, distinct.key?_hostKey place, fun other same => ?_⟩
    have found := (distinct.key?_hostKey other).symm.trans same
    exact keypadKeys_injective other place (Option.some.inj found)
  produced keypad := by
    let held := ((List.finRange 16).filter fun place => keypad.keys.get (keypadKeys.get place)).map
      layout.hostKeys.get
    refine ⟨held, Keypad.ext fun key => ?_⟩
    rw [Bool.eq_iff_iff, get_keypad]
    simp only [held, List.mem_map, List.mem_filter, List.mem_finRange, true_and]
    constructor
    · rintro ⟨host, ⟨place, pressed, rfl⟩, found⟩
      rw [distinct.key?_hostKey, Option.some.injEq] at found
      rwa [← found]
    · intro pressed
      obtain ⟨place, rfl⟩ := keypadKeys_surjective key
      exact ⟨_, ⟨place, pressed, rfl⟩, distinct.key?_hostKey place⟩

end Distinct

/-- Every layout maps host keys by their last place, and a text presses the keys of its characters.
A layout without repeated letters reaches every keypad. -/
theorem keys_mapped (layout : Layout) :
    Maps layout ∧ Presses layout ∧ (Distinct layout → Covers layout) :=
  ⟨layout.maps, layout.presses, Distinct.covers⟩

/-- The standard layout has no repeated letters. -/
theorem keys_mapped_standard : Distinct standard ∧ Covers standard := by
  have distinct : Distinct standard := by
    intro place other same
    rw [← toLower_eq_iff] at same
    revert place other
    decide
  exact ⟨distinct, (keys_mapped standard).2.2 distinct⟩

end Layout
end ChipEight
