/-
This file compares the drawing of a sprite with its definition pixel by pixel.
-/
import ChipEight.Proofs.Bare.Families
import ChipEight.Proofs.Picture

namespace ChipEight

namespace Stamp

section Collision

/-- A drawn row collides if it flips a lit pixel of its own row. -/
theorem drawRow_collision (display : Display) (left top : Nat) (pixels : UInt8) :
    (display.drawRow left top pixels).collision = true ↔ ∃ x y, display.pixel x y = true ∧
      y.val = top ∧ (Display.spriteRow pixels left).getMsb x = true := by
  rw [Display.drawRow]
  split
  · rename_i inside
    refine (Bare.collides_iff _ _).trans ⟨?_, ?_⟩
    · rintro ⟨x, covered, lit⟩
      exact ⟨x, ⟨top, inside⟩, lit, rfl, covered⟩
    · rintro ⟨x, y, lit, rfl, covered⟩
      exact ⟨x, covered, lit⟩
  · rename_i outside
    constructor
    · intro none
      cases none
    · rintro ⟨x, y, -, rfl, -⟩
      exact absurd y.isLt outside

/-- A sprite collides if it covers a lit pixel. -/
theorem collision_iff (stamp : Stamp) (display : Display) :
    (display.drawSprite stamp.left stamp.top stamp.rows).collision = true ↔
      ∃ x y, display.pixel x y = true ∧ stamp.covers x y = true := by
  obtain ⟨left, top, rows⟩ := stamp
  induction rows generalizing display top with
  | nil => simp [Display.drawSprite, covers]
  | cons pixels rest inductionHypothesis =>
      -- The first row flips no pixel of a later row, so the later rows meet the display as it was.
      have apart (x : Fin 64) (y : Fin 32) (later : covers ⟨left, top + 1, rest⟩ x y = true) :
          y.val ≠ top := by
        obtain ⟨row, _, place, -⟩ := (covers_iff _ x y).mp later
        simp only at place
        omega
      have kept (x : Fin 64) (y : Fin 32) (below : y.val ≠ top) :
          (display.drawRow left top pixels).display.pixel x y = display.pixel x y := by
        rw [Display.pixelDrawRow]
        simp [below]
      simp only [Display.drawSprite, Bool.or_eq_true, drawRow_collision, inductionHypothesis]
      constructor
      · rintro (⟨x, y, lit, place, covered⟩ | ⟨x, y, lit, covered⟩)
        · have alone : covers ⟨left, top + 1, rest⟩ x y = false :=
            Bool.eq_false_iff.mpr fun later => apart x y later place
          exact ⟨x, y, lit, by simp [covers_cons, alone, place, covered]⟩
        · have below := apart x y covered
          rw [kept x y below] at lit
          exact ⟨x, y, lit, by simp [covers_cons, below, covered]⟩
      · rintro ⟨x, y, lit, covered⟩
        by_cases place : y.val = top
        · have alone : covers ⟨left, top + 1, rest⟩ x y = false :=
            Bool.eq_false_iff.mpr fun later => apart x y later place
          rw [covers_cons, alone] at covered
          exact .inl ⟨x, y, lit, place, by simpa [place] using covered⟩
        · rw [covers_cons] at covered
          exact .inr ⟨x, y, by rw [kept x y place, lit], by simpa [place] using covered⟩

/-- Printing a stamp twice restores the display. -/
theorem print_print (stamp : Stamp) (display : Display) :
    stamp.print (stamp.print display) = display := by
  refine Display.eq_of_pixel fun x y => ?_
  rw [pixel_print, pixel_print, Bool.xor_assoc, Bool.xor_self, Bool.xor_false]

end Collision

end Stamp

namespace Machine

section Bits

variable (machine : Machine) (word : Word)

/-- The sprite that the word draws, where it draws it. -/
def stampOf : Stamp where
  left := (machine.register word.x).toNat % Display.width
  top := (machine.register word.y).toNat % Display.height
  rows := machine.memory.readAll machine.index.toNat word.n.val

/-- The sprite has a bit at this pixel. Beyond an edge of the display there are no pixels. -/
def SpriteBit (x : Fin 64) (y : Fin 32) : Prop :=
  let left := (machine.register word.x).toNat % 64
  let top := (machine.register word.y).toNat % 32
  top ≤ y.val ∧ y.val < top + word.n.val ∧ left ≤ x.val ∧ x.val < left + 8 ∧
    (machine.memory.cells[(machine.index.toNat + (y.val - top)) % 4096]).toNat.testBit
      (7 - (x.val - left)) = true

instance (x : Fin 64) (y : Fin 32) : Decidable (machine.SpriteBit word x y) :=
  inferInstanceAs (Decidable (_ ∧ _))

theorem spriteBit_iff (x : Fin 64) (y : Fin 32) :
    machine.SpriteBit word x y ↔ (machine.stampOf word).covers x y = true := by
  simp only [SpriteBit, stampOf, Stamp.covers_iff, Memory.getElem?_readAll, Display.spriteRow_iff,
    Display.width, Display.height, Memory.read]
  constructor
  · rintro ⟨below, above, right, inside, bit⟩
    exact ⟨_, _, (Nat.add_sub_cancel' below).symm, ⟨by omega, rfl⟩, _, by omega,
      (Nat.add_sub_cancel' right).symm, bit⟩
  · rintro ⟨row, _, line, ⟨inside, rfl⟩, column, narrow, place, bit⟩
    simp only [line, place, Nat.add_sub_cancel_left]
    exact ⟨by omega, by omega, by omega, by omega, bit⟩

end Bits

section Drawn

/-- A drawing flips the pixels where its sprite has a bit, tells whether it turned one off, and marks
the display. It keeps everything else. -/
structure Drawn (before : Machine) (word : Word) (after : Machine) : Prop where
  pixel (x : Fin 64) (y : Fin 32) : after.display.pixel x y =
    (before.display.pixel x y ^^ decide (before.SpriteBit word x y))
  flag : after.register flagRegister =
    if ∃ x y, before.display.pixel x y = true ∧ after.display.pixel x y = false then 1 else 0
  dirty : after.dirty = true
  others : after = { before.setRegister flagRegister (after.register flagRegister) with
    display := after.display
    dirty := after.dirty }

/-- The second drawing undoes the first one, and tells whether that one turned a pixel on. -/
structure Undone (before drawn after : Machine) : Prop where
  display : after.display = before.display
  flag : after.register flagRegister =
    if ∃ x y, before.display.pixel x y = false ∧ drawn.display.pixel x y = true then 1 else 0

/-- The machines agree on all that the word draws with. -/
structure SameSprite (word : Word) (left right : Machine) : Prop where
  memory : right.memory = left.memory
  index : right.index = left.index
  x : right.register word.x = left.register word.x
  y : right.register word.y = left.register word.y

theorem SameSprite.trans {word : Word} {first second third : Machine}
    (left : SameSprite word first second) (right : SameSprite word second third) :
    SameSprite word first third :=
  ⟨right.memory.trans left.memory, right.index.trans left.index, right.x.trans left.x,
    right.y.trans left.y⟩

variable (machine : Machine) (word : Word)

theorem handle_draw : machine.handle 0xD word =
    ⟨machine.draw word.x word.y word.n, .ok { signal := .draw }⟩ := rfl

theorem draw_display : (machine.draw word.x word.y word.n).display =
    (machine.stampOf word).print machine.display := rfl

theorem draw_collision : (machine.draw word.x word.y word.n).register flagRegister =
    Operator.bit (machine.display.drawSprite (machine.stampOf word).left (machine.stampOf word).top
      (machine.stampOf word).rows).collision :=
  (machine.registerSetRegister flagRegister flagRegister _).trans (if_pos rfl)

theorem draw_flag : (machine.draw word.x word.y word.n).register flagRegister =
    if ∃ x y, machine.display.pixel x y = true ∧ (machine.stampOf word).covers x y = true then 1
    else 0 := by
  rw [draw_collision, Operator.bit]
  simp only [Stamp.collision_iff]

theorem draw_drawn : Drawn machine word (machine.draw word.x word.y word.n) where
  pixel x y := by
    rw [draw_display, Stamp.pixel_print]
    simp only [spriteBit_iff, Bool.decide_eq_true]
  flag := by
    rw [draw_flag, draw_display]
    congr 1
    simp only [Stamp.pixel_print, eq_iff_iff]
    refine exists₂_congr fun x y => and_congr_right fun lit => ?_
    rw [lit, Bool.true_xor, Bool.not_eq_false']
  dirty := rfl
  others := by
    rw [draw_collision]
    rfl

theorem draw_undone {next : Machine}
    (display : next.display = (machine.stampOf word).print machine.display)
    (same : next.stampOf word = machine.stampOf word) :
    Undone machine (machine.draw word.x word.y word.n) (next.draw word.x word.y word.n) where
  display := by rw [draw_display, same, display, Stamp.print_print]
  flag := by
    rw [draw_flag, same, display, draw_display]
    congr 1
    simp only [Stamp.pixel_print, eq_iff_iff]
    refine exists₂_congr fun x y => ?_
    cases machine.display.pixel x y <;> cases (machine.stampOf word).covers x y <;> simp

theorem stampOf_congr {left right : Machine} (same : SameSprite word left right) :
    right.stampOf word = left.stampOf word := by
  rw [stampOf, same.memory, same.index, same.x, same.y, stampOf]

/-- A drawing does not move its own sprite, unless that lies at the flag register. -/
theorem draw_sameSprite (x : word.x ≠ flagRegister) (y : word.y ≠ flagRegister) :
    SameSprite word machine (machine.draw word.x word.y word.n) :=
  ⟨rfl, rfl, (machine.registerSetRegister _ _ _).trans (if_neg x.symm),
    (machine.registerSetRegister _ _ _).trans (if_neg y.symm)⟩

/-- The word draws its sprite whether it is handled, executed or executed in place, and the sprite is
gone again when the word is handled a second time. -/
structure DrawsSprite (machine : Machine) (word : Word) (drawn : Machine) : Prop where
  handled : machine.handle 0xD word = ⟨drawn, .ok { signal := .draw }⟩
  executed : word.family = 0xD → machine.execute word = ⟨drawn.advance .next, .ok .draw⟩
  inPlace : Bare.draw word machine.bare = .ok { signal := .draw } drawn.bare
  once : Drawn machine word drawn
  twice : word.x ≠ flagRegister → word.y ≠ flagRegister → ∀ next : Machine,
    next.display = drawn.display → SameSprite word drawn next →
      Undone machine drawn (next.handle 0xD word).machine

/-- Every drawing equals its definition pixel by pixel, wherever the sprite starts and whatever
registers it uses. -/
theorem sprite_drawn (machine : Machine) (word : Word) :
    DrawsSprite machine word (machine.draw word.x word.y word.n) where
  handled := machine.handle_draw word
  executed family := by rw [execute, family, handle_draw]
  inPlace := Bare.draw_bare machine word
  once := machine.draw_drawn word
  twice x y next display same := by
    have moved := stampOf_congr word ((machine.draw_sameSprite word x y).trans same)
    exact machine.draw_undone word display moved

/-- A sprite at the corner loses what lies past both edges, and its second drawing collides. -/
theorem sprite_drawn_corner :
    let machine := ((initial {} (.arithmetic 0 1)).setRegister 0 63).setRegister 1 159
    let drawn := machine.draw 0 1 5
    drawn.display.pixel 63 31 = true ∧ drawn.display.pixel 0 0 = false ∧
      (drawn.handle 0xD 0xD015).machine.display = .blank ∧
      (drawn.handle 0xD 0xD015).machine.register 15 = 1 := by
  intro machine drawn
  have law := sprite_drawn machine 0xD015
  have undone := law.twice (by decide) (by decide) drawn rfl ⟨rfl, rfl, rfl, rfl⟩
  have lit : drawn.display.pixel 63 31 = true :=
    (law.once.pixel 63 31).trans (by decide +kernel)
  have clipped : drawn.display.pixel 0 0 = false :=
    (law.once.pixel 0 0).trans (by decide +kernel)
  have collided : ∃ x y, machine.display.pixel x y = false ∧ drawn.display.pixel x y = true :=
    ⟨63, 31, Display.pixel_blank 63 31, lit⟩
  exact ⟨lit, clipped, undone.display, undone.flag.trans (if_pos collided)⟩

end Drawn

end Machine
end ChipEight
