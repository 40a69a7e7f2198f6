/-
This file shows that the display holds the parity of the sprites drawn since it was last cleared.
-/
import Mathlib.Algebra.Ring.Parity
import Mathlib.Data.List.DropRight
import Mathlib.Data.List.Induction
import ChipEight.Proofs.Bare.Drawing
import ChipEight.Proofs.Turn

namespace ChipEight

namespace Display

theorem eq_of_pixel {first second : Display}
    (same : ∀ x y, first.pixel x y = second.pixel x y) : first = second := by
  obtain ⟨rows⟩ := first
  obtain ⟨others⟩ := second
  congr 1
  refine Vector.ext fun y below => BitVec.eq_of_getMsbD_eq fun x inside => ?_
  have pixel := same ⟨x, inside⟩ ⟨y, below⟩
  simp only [Display.pixel, Bare.getMsb_eq_getMsbD] at pixel
  exact pixel

theorem pixel_blank (x : Fin 64) (y : Fin 32) : blank.pixel x y = false := by
  simp [pixel, blank, Bare.getMsb_eq_getMsbD]

/-- The leftmost pixel of a sprite is the highest bit of its row. -/
theorem spriteRow_iff (pixels : UInt8) (left : Nat) (x : Fin 64) :
    (spriteRow pixels left).getMsb x = true ↔
      ∃ column < 8, x.val = left + column ∧ pixels.toNat.testBit (7 - column) = true := by
  rw [Bare.getMsb_eq_getMsbD, getMsbSpriteRow pixels left x.val x.isLt, BitVec.getMsbD]
  simp only [Bool.and_eq_true, decide_eq_true_eq]
  constructor
  · rintro ⟨right, inside, bit⟩
    exact ⟨x.val - left, inside, by omega, bit⟩
  · rintro ⟨column, inside, place, bit⟩
    rw [place, Nat.add_sub_cancel_left]
    exact ⟨Nat.le_add_right _ _, inside, bit⟩

end Display

theorem Memory.getElem?_readAll (memory : Memory) (start count offset : Nat) (value : UInt8) :
    (memory.readAll start count)[offset]? = some value ↔
      offset < count ∧ memory.read (start + offset) = value := by
  simp [Memory.readAll, List.getElem?_eq_some_iff]

/-- A stamp is a sprite at the place where it is drawn. -/
structure Stamp where
  left : Nat
  top : Nat
  rows : List UInt8
  deriving DecidableEq

namespace Stamp

section Print

variable (stamp : Stamp) (display : Display) (x : Fin 64) (y : Fin 32)

def covers : Bool :=
  decide (stamp.top ≤ y.val) &&
    stamp.rows[y.val - stamp.top]?.any fun pixels => (Display.spriteRow pixels stamp.left).getMsb x

def print : Display := (display.drawSprite stamp.left stamp.top stamp.rows).display

theorem covers_iff : stamp.covers x y = true ↔ ∃ row pixels, y.val = stamp.top + row ∧
    stamp.rows[row]? = some pixels ∧ (Display.spriteRow pixels stamp.left).getMsb x = true := by
  simp only [covers, Bool.and_eq_true, decide_eq_true_eq, Option.any_eq_true]
  constructor
  · rintro ⟨below, pixels, line, bit⟩
    exact ⟨y.val - stamp.top, pixels, by omega, line, bit⟩
  · rintro ⟨row, pixels, place, line, bit⟩
    rw [place, Nat.add_sub_cancel_left]
    exact ⟨Nat.le_add_right _ _, pixels, line, bit⟩

/-- The first row lies at the top, and the others make a stamp one row below. -/
theorem covers_cons (left top : Nat) (pixels : UInt8) (rest : List UInt8) :
    covers ⟨left, top, pixels :: rest⟩ x y =
      ((decide (y.val = top) && (Display.spriteRow pixels left).getMsb x) ^^
        covers ⟨left, top + 1, rest⟩ x y) := by
  rcases lt_trichotomy y.val top with above | same | below
  · simp [covers, above.ne, show ¬ top ≤ y.val by omega, show ¬ top + 1 ≤ y.val by omega]
  · simp [covers, same]
  · rw [covers, covers, show y.val - top = y.val - (top + 1) + 1 by omega]
    simp [below.ne', below.le, Nat.succ_le_iff.mpr below]

/-- Printing flips the pixels that the stamp covers. -/
theorem pixel_print : (stamp.print display).pixel x y = (display.pixel x y ^^ stamp.covers x y) := by
  obtain ⟨left, top, rows⟩ := stamp
  rw [print]
  -- Below the first row lies a stamp of its own, which is printed on what the first row left.
  induction rows generalizing display top with
  | nil => simp [Display.drawSprite, covers]
  | cons pixels rest inductionHypothesis =>
      rw [Display.drawSprite, inductionHypothesis, Display.pixelDrawRow, covers_cons, Bool.xor_assoc]

end Print

section Picture

/-- A picture is printed on a blank display. -/
def picture (stamps : List Stamp) : Display :=
  stamps.foldl (fun display stamp => stamp.print display) .blank

theorem picture_append (stamps : List Stamp) (stamp : Stamp) :
    picture (stamps ++ [stamp]) = stamp.print (picture stamps) := by
  rw [picture, List.foldl_append]
  rfl

theorem pixel_picture (stamps : List Stamp) (x : Fin 64) (y : Fin 32) :
    (picture stamps).pixel x y = true ↔ Odd (stamps.countP fun stamp => stamp.covers x y) := by
  induction stamps using List.reverseRecOn with
  | nil => simp [picture, Display.pixel_blank]
  | append_singleton stamps stamp inductionHypothesis =>
      rw [picture_append, pixel_print, List.countP_append, List.countP_singleton]
      cases covered : stamp.covers x y with
      | false => simpa using inductionHypothesis
      | true => simp [Nat.odd_add_one, ← inductionHypothesis]

variable {first second : List Stamp}

/-- A picture does not tell in which order it was printed. -/
theorem picture_perm (reordered : first.Perm second) : picture first = picture second := by
  refine Display.eq_of_pixel fun x y => ?_
  rw [Bool.eq_iff_iff, pixel_picture, pixel_picture, reordered.countP_eq]

/-- The same stamp twice is no stamp. -/
theorem picture_twice (stamp : Stamp) (stamps : List Stamp) :
    picture (stamp :: stamp :: stamps) = picture stamps := by
  refine Display.eq_of_pixel fun x y => ?_
  rw [Bool.eq_iff_iff, pixel_picture, pixel_picture, List.countP_cons, List.countP_cons, add_assoc]
  split <;> simp [Nat.odd_add]

end Picture

end Stamp

namespace Turn

section Covers

variable (turn : Turn) (x : Fin 64) (y : Fin 32)

/-- A drawing covers the pixels where the sprite has a bit; the sprite starts inside the display and
does not go on at the other edge. -/
def Covers : Prop :=
  ∃ vx vy height, turn.instruction = .draw vx vy height ∧ ∃ row < height.val, ∃ column < 8,
    x.val = (turn.before.register vx).toNat % 64 + column ∧
    y.val = (turn.before.register vy).toNat % 32 + row ∧
    (turn.before.memory.read (turn.before.index.toNat + row)).toNat.testBit (7 - column) = true

/-- The sprite of a drawing, where it was drawn. -/
def stamp? : Option Stamp :=
  match turn.instruction with
  | .draw vx vy height => some {
      left := (turn.before.register vx).toNat % Display.width
      top := (turn.before.register vy).toNat % Display.height
      rows := turn.before.memory.readAll turn.before.index.toNat height.val }
  | _ => none

theorem covers_iff :
    turn.Covers x y ↔ ∃ stamp, turn.stamp? = some stamp ∧ stamp.covers x y = true := by
  unfold Covers stamp?
  cases turn.instruction with
  | draw vx vy height =>
      simp only [Instruction.draw.injEq, Option.some.injEq, exists_eq_left', Stamp.covers_iff,
        Memory.getElem?_readAll, Display.spriteRow_iff]
      constructor
      · rintro ⟨_, _, _, ⟨rfl, rfl, rfl⟩, row, inside, column, narrow, place, line, bit⟩
        exact ⟨row, _, line, ⟨inside, rfl⟩, column, narrow, place, bit⟩
      · rintro ⟨row, _, line, ⟨inside, rfl⟩, column, narrow, place, bit⟩
        exact ⟨vx, vy, height, ⟨rfl, rfl, rfl⟩, row, inside, column, narrow, place, line, bit⟩
  | _ => simp

instance : Decidable (turn.Covers x y) :=
  decidable_of_iff (turn.stamp?.any fun stamp => stamp.covers x y)
    ((Option.any_eq_true _ _).trans (turn.covers_iff x y).symm)

end Covers

section Drawn

/-- The turns after the last one that cleared the display. -/
def sinceClear (turns : List Turn) : List Turn :=
  turns.rtakeWhile fun turn => turn.instruction ≠ .clear

/-- The sprites on the display. -/
def drawn (turns : List Turn) : List Stamp := (sinceClear turns).filterMap stamp?

theorem drawn_append (turns : List Turn) (turn : Turn) :
    drawn (turns ++ [turn]) =
      if turn.instruction = .clear then [] else drawn turns ++ turn.stamp?.toList := by
  simp only [drawn, sinceClear, List.rtakeWhile_concat]
  by_cases clearing : turn.instruction = .clear
  · simp [clearing]
  · rw [if_neg clearing, if_pos (by simpa using clearing), List.filterMap_append]
    cases stamp : turn.stamp? <;> simp [stamp]

/-- Counting the drawings that cover a pixel is counting the stamps that do. -/
theorem countP_covers (turns : List Turn) (x : Fin 64) (y : Fin 32) :
    (sinceClear turns).countP (fun turn => turn.Covers x y) =
      (drawn turns).countP fun stamp => stamp.covers x y := by
  rw [drawn, List.countP_filterMap]
  refine List.countP_congr fun turn _ => ?_
  rw [decide_eq_true_eq, covers_iff]
  cases turn.stamp? <;> simp

/-- A turn clears the display, prints its stamp, or leaves the display alone. -/
theorem after_display (turn : Turn) :
    turn.after.display =
      if turn.instruction = .clear then .blank
      else turn.stamp?.elim turn.before.display fun stamp => stamp.print turn.before.display := by
  rw [turn.moved.display, stamp?]
  cases turn.instruction <;> rfl

theorem after_picture (turn : Turn) (turns : List Turn)
    (shown : turn.before.display = Stamp.picture (drawn turns)) :
    turn.after.display = Stamp.picture (drawn (turns ++ [turn])) := by
  rw [after_display, drawn_append, shown]
  split
  · rfl
  · cases turn.stamp? with
    | none => simp
    | some stamp => exact (Stamp.picture_append _ _).symm

end Drawn

end Turn

namespace Machine

section Run

/-- The display shows the sprites that were drawn since it was cleared. -/
theorem after_picture (machine : Machine) (blank : machine.display = .blank)
    (operations : List Operation) (play : ∀ operation ∈ operations, operation.isPlay) :
    (machine.after operations).display = Stamp.picture (Turn.drawn (machine.turns operations)) := by
  -- A clearing makes all earlier turns irrelevant, so the last operation is looked at first.
  induction operations using List.reverseRecOn with
  | nil => exact blank
  | append_singleton operations operation inductionHypothesis =>
      rw [List.forall_mem_append, List.forall_mem_singleton] at play
      have shown := inductionHypothesis play.1
      rw [after_append, turns_append, after_cons, after_nil, turns, turns, List.append_nil]
      obtain ⟨none, still⟩ | ⟨turn, dirty, taken, before, after⟩ :=
        (machine.after operations).apply_turn operation play.2
      · rw [none, still.display, shown, Option.toList_none, List.append_nil]
      · rw [taken, after]
        rw [← before] at shown
        exact turn.after_picture _ shown

/-- A pixel is lit exactly if an odd number of the drawings since the last clearing cover it. So the
order of these drawings does not matter, and one that is repeated is undone. -/
theorem display_parity (machine : Machine) (rom : Rom) (operations : List Operation)
    (play : ∀ operation ∈ operations, operation.isPlay) :
    (∀ x y, ((machine.load rom).after operations).display.pixel x y = true ↔
      Odd ((Turn.sinceClear ((machine.load rom).turns operations)).countP
        fun turn => turn.Covers x y)) ∧
    ∀ (other : Machine) (program : Rom) (others : List Operation),
      (∀ operation ∈ others, operation.isPlay) →
      let first := Turn.drawn ((machine.load rom).turns operations)
      let second := Turn.drawn ((other.load program).turns others)
      (first.Perm second ∨ ∃ stamp, first.Perm (stamp :: stamp :: second)) →
        ((machine.load rom).after operations).display =
          ((other.load program).after others).display := by
  have picture := after_picture (machine.load rom) rfl operations play
  constructor
  · intro x y
    rw [picture, Stamp.pixel_picture, Turn.countP_covers]
  · intro other program others otherPlay first second same
    rw [picture, after_picture (other.load program) rfl others otherPlay]
    obtain reordered | ⟨stamp, repeated⟩ := same
    · exact Stamp.picture_perm reordered
    · rw [Stamp.picture_perm repeated, Stamp.picture_twice]

/-- Two programs draw the same two glyphs in different order. -/
theorem display_parity_swapped :
    let machine := initial {} (.arithmetic 0 1)
    let rom : Rom := ⟨"", [0xD0, 0x12, 0x60, 0x04, 0xD0, 0x12], by decide, by decide⟩
    let program : Rom := ⟨"", [0x60, 0x04, 0xD0, 0x12, 0x60, 0x00, 0xD0, 0x12], by decide, by decide⟩
    let operations := [Operation.step, .setKey 3 true, .step, .tick]
    let others := [Operation.tick, .step, .takeDirty, .step, .step]
    (Turn.drawn ((machine.load rom).turns operations)).Perm
        (Turn.drawn ((machine.load program).turns others)) ∧
      ((machine.load rom).after operations).display =
        ((machine.load program).after others).display ∧
      ((machine.load rom).after operations).display.pixel 4 0 = true := by
  intro machine rom program operations others
  have first : Turn.drawn ((machine.load rom).turns operations) =
      [⟨0, 0, [0xF0, 0x90]⟩, ⟨4, 0, [0xF0, 0x90]⟩] := by
    decide +kernel
  have second : Turn.drawn ((machine.load program).turns others) =
      [⟨4, 0, [0xF0, 0x90]⟩, ⟨0, 0, [0xF0, 0x90]⟩] := by
    decide +kernel
  have swapped : (Turn.drawn ((machine.load rom).turns operations)).Perm
      (Turn.drawn ((machine.load program).turns others)) := by
    rw [first, second]
    exact .swap _ _ _
  obtain ⟨lit, same⟩ := display_parity machine rom operations (by decide)
  refine ⟨swapped, same machine program others (by decide) (.inl swapped), (lit 4 0).mpr ?_⟩
  rw [Turn.countP_covers, first]
  decide

end Run

end Machine
end ChipEight
