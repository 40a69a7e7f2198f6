/-
This file holds the display and draws sprites on it.
-/

namespace ChipEight

/-- The display has 32 rows of 64 pixels; the leftmost pixel is the highest bit of its row. -/
structure Display where
  rows : Vector (BitVec 64) 32

namespace Display

def width : Nat := 64

def height : Nat := 32

/-- Every sprite is one byte wide. -/
def spriteWidth : Nat := 8

def blank : Display := ⟨Vector.replicate 32 0⟩

def pixel (display : Display) (x : Fin 64) (y : Fin 32) : Bool :=
  display.rows[y].getMsb x

/-- The sprite row moves right from the left edge and loses the pixels past the right edge. -/
def spriteRow (pixels : UInt8) (left : Nat) : BitVec 64 :=
  (pixels.toBitVec.setWidth 64 <<< 56) >>> left

/-- A drawing reports a collision if it turned a pixel off. -/
structure Drawing where
  display : Display
  collision : Bool

/-- A row below the bottom edge is not drawn. -/
def drawRow (display : Display) (left top : Nat) (pixels : UInt8) : Drawing :=
  if inside : top < 32 then
    let sprite := spriteRow pixels left
    let row := display.rows[top]
    ⟨⟨display.rows.set top (row ^^^ sprite)⟩, row &&& sprite != 0⟩
  else
    ⟨display, false⟩

/-- The rows of a sprite follow each other from the top down. -/
def drawSprite (display : Display) (left top : Nat) : List UInt8 → Drawing
  | [] => ⟨display, false⟩
  | pixels :: rest =>
      let first := display.drawRow left top pixels
      let others := first.display.drawSprite left (top + 1) rest
      ⟨others.display, first.collision || others.collision⟩

/-- The highest bit of a sprite row is its left edge. -/
theorem getMsbSpriteRow (pixels : UInt8) (left x : Nat) (inside : x < 64) :
    (spriteRow pixels left).getMsbD x =
      (decide (left ≤ x) && pixels.toBitVec.getMsbD (x - left)) := by
  rw [spriteRow, BitVec.getMsbD_ushiftRight, BitVec.getMsbD_shiftLeft]
  by_cases before : x < left
  · simp [inside, before, show ¬ left ≤ x by omega]
  · rw [BitVec.getMsbD_setWidth]
    simp [inside, before, show left ≤ x by omega]

/-- A drawn row flips the pixels of its own row that the sprite covers. -/
theorem pixelDrawRow (display : Display) (left top : Nat) (pixels : UInt8) (x : Fin 64)
    (y : Fin 32) :
    (display.drawRow left top pixels).display.pixel x y =
      (display.pixel x y ^^
        (decide (y.val = top) && (spriteRow pixels left).getMsb x)) := by
  unfold drawRow
  split
  · rename_i inside
    simp only [pixel]
    by_cases same : y.val = top
    · subst same
      simp [BitVec.getMsb_eq_getLsb]
    · simp [same, Ne.symm same]
  · rename_i outside
    have past : y.val ≠ top := by
      have := y.isLt
      omega
    simp [past]

end Display
end ChipEight
