/-
This file shows that drawing pixel by pixel, with checked accesses, is drawing row by row.
-/
import ChipEight.Proofs.Bare.Parts

namespace ChipEight.Bare

/-- A frame may be given pixel by pixel. -/
def frameOf (lit : Fin 64 → Fin 32 → Bool) : Frame :=
  Array.ofFn fun y => Array.ofFn fun x => lit x y

section Pixels

variable (machine : Machine) (lit : Fin 64 → Fin 32 → Bool)

/-- The pixels are drawn in place of those of the machine. -/
def showing : Bare := { machine.bare with display := frameOf lit }

theorem pixel_showing (x : Fin 64) (y : Fin 32) :
    pixel x.val y.val (showing machine lit) = .ok (lit x y) (showing machine lit) := by
  simp [pixel, item, showing, frameOf]

theorem setPixel_showing (x : Fin 64) (y : Fin 32) (value : Bool) :
    setPixel x.val y.val value (showing machine lit) =
      .ok ⟨⟩ (showing machine fun column row =>
        if column = x ∧ row = y then value else lit column row) := by
  have changed : (frameOf lit).set y.val ((Array.ofFn fun column => lit column y).set x.val value
      (by simp)) (by simp [frameOf]) = frameOf fun column row =>
        if column = x ∧ row = y then value else lit column row := by
    apply Array.ext
    · simp [frameOf]
    · intro row inside _
      by_cases sameRow : row = y.val
      · subst sameRow
        apply Array.ext
        · simp [frameOf]
        · intro column _ _
          by_cases sameColumn : column = x.val
          · subst sameColumn
            simp [frameOf]
          · simp [frameOf, Array.getElem_set, Ne.symm sameColumn, Fin.ext_iff, sameColumn]
      · simp [frameOf, Array.getElem_set, Ne.symm sameRow, Fin.ext_iff, sameRow]
  simp [setPixel, item, replace, showing, frameOf] at changed ⊢
  exact changed

end Pixels

section Columns

/-- The mask of a place selects the bit of its column. -/
theorem mask_selects (sprite : UInt8) (column : Nat) (inside : column < 8) :
    sprite &&& (1 <<< UInt8.ofNat (7 - column)) = 1 <<< UInt8.ofNat (7 - column) ↔
      sprite.toBitVec.getMsbD column = true := by
  have place : (1 <<< UInt8.ofNat (7 - column) : UInt8).toBitVec = BitVec.twoPow 8 (7 - column) := by
    interval_cases column <;> rfl
  have nonzero : BitVec.twoPow 8 (7 - column) ≠ 0#8 := by
    interval_cases column <;> decide
  rw [← UInt8.toBitVec_inj, UInt8.toBitVec_and, place, BitVec.and_twoPow, BitVec.getMsbD]
  cases sprite.toBitVec.getLsbD (7 - column) <;> simp [inside, nonzero.symm]

theorem columns_eq : columns = (List.range' 0 8).map fun column => (7 - column, column) := rfl

/-- The columns of a sprite row cover the pixels of its set bits. -/
def covers (sprite : UInt8) (left column count : Nat) (x : Fin 64) : Bool :=
  decide (left + column ≤ x.val ∧ x.val < left + column + count) &&
    sprite.toBitVec.getMsbD (x.val - left)

variable (machine : Machine) (sprite : UInt8) (left : Nat) (y : Fin 32)

theorem covers_none (column : Nat) (x : Fin 64) : covers sprite left column 0 x = false := by
  simp [covers]

theorem covers_past (column count : Nat) (past : 64 ≤ left + column) (x : Fin 64) :
    covers sprite left column count x = false := by
  have inside := x.isLt
  simp [covers]
  omega

theorem covers_succ (column count : Nat) (x : Fin 64) :
    covers sprite left column (count + 1) x =
      ((decide (x.val = left + column) && sprite.toBitVec.getMsbD column) ||
        covers sprite left (column + 1) count x) := by
  by_cases here : x.val = left + column
  · simp [covers, here]
  · have apart : (left + column ≤ x.val ∧ x.val < left + column + (count + 1)) ↔
        (left + (column + 1) ≤ x.val ∧ x.val < left + (column + 1) + count) := by omega
    simp [covers, here, apart]

/-- The first column collides with its own pixel only. -/
theorem collides_succ (lit flipped : Fin 64 → Bool) (column count : Nat) (here : Fin 64)
    (first : here.val = left + column) (bit : sprite.toBitVec.getMsbD column = true)
    (others : ∀ x, x ≠ here → flipped x = lit x) :
    (lit here || decide (∃ x, covers sprite left (column + 1) count x = true ∧ flipped x = true)) =
      decide (∃ x, covers sprite left column (count + 1) x = true ∧ lit x = true) := by
  have apart (x : Fin 64) (later : covers sprite left (column + 1) count x = true) : x ≠ here := by
    rintro rfl
    simp [covers, first] at later
  rw [Bool.eq_iff_iff]
  simp only [Bool.or_eq_true, decide_eq_true_eq, covers_succ, Bool.and_eq_true, bit, and_true]
  constructor
  · rintro (here_lit | ⟨x, later, flipped_lit⟩)
    · exact ⟨here, .inl first, here_lit⟩
    · exact ⟨x, .inr later, others x (apart x later) ▸ flipped_lit⟩
  · rintro ⟨x, same | later, lit_x⟩
    · exact .inl (Fin.ext (first.trans same.symm) ▸ lit_x)
    · exact .inr ⟨x, later, (others x (apart x later)).trans lit_x⟩

/-- The drawn columns flip the pixels that they cover, and collide with the lit ones. -/
theorem drawColumns_showing (lit : Fin 64 → Fin 32 → Bool) (column count : Nat)
    (within : column + count ≤ 8) (small : left < 64) (collision : Bool) :
    drawColumns sprite left y.val
        ((List.range' column count).map fun column => (7 - column, column)) collision
        (showing machine lit) =
      .ok (collision || decide (∃ x, covers sprite left column count x = true ∧ lit x y = true))
        (showing machine fun x row =>
          lit x row ^^ (decide (row = y) && covers sprite left column count x)) := by
  induction count generalizing lit column collision with
  | zero => simp [drawColumns, covers_none]
  | succ count inductionHypothesis =>
      rw [List.range'_succ, List.map_cons, drawColumns]
      simp only [bind_apply, sum_small left column (by omega), check_ok, ite_run]
      by_cases past : Display.width ≤ left + column
      · simp [past, covers_past sprite left column _ past]
      · have place : bitMask (7 - column) = .ok (1 <<< UInt8.ofNat (7 - column)) := by
          rw [bitMask, if_pos (by omega)]
        simp only [past, if_false, place, check_ok, mask_selects sprite column (by omega)]
        by_cases bit : sprite.toBitVec.getMsbD column = true
        · obtain ⟨here, first⟩ : ∃ here : Fin 64, here.val = left + column :=
            ⟨⟨left + column, Nat.lt_of_not_le past⟩, rfl⟩
          simp only [← first, bit, if_true, pixel_showing, setPixel_showing]
          rw [inductionHypothesis _ (column + 1) (by omega) _, Bool.or_assoc,
            collides_succ sprite left (fun x => lit x y) _ column count here first bit
              (fun x apart => by simp [apart])]
          congr 2
          funext x row
          by_cases sameRow : row = y <;> by_cases same : x = here
          · simp [sameRow, same, first, bit, covers]
          · have apart : x.val ≠ left + column := fun equal => same (Fin.ext (equal.trans first.symm))
            simp [sameRow, same, covers_succ, apart]
          · simp [sameRow]
          · simp [sameRow]
        · simp only [bit, if_false, Bool.false_eq_true]
          rw [inductionHypothesis lit (column + 1) (by omega) collision]
          simp [covers_succ, bit]

end Columns

section Lines

variable (machine : Machine)

theorem getMsb_eq_getMsbD (row : BitVec 64) (x : Fin 64) : row.getMsb x = row.getMsbD x.val := by
  rw [BitVec.getMsbD_eq_getMsb?_getD, BitVec.getMsb?, dif_pos x.isLt, Option.getD_some]

/-- The eight columns cover what the sprite row sets. -/
theorem covers_all (sprite : UInt8) (left : Nat) (x : Fin 64) :
    covers sprite left 0 8 x = (Display.spriteRow sprite left).getMsb x := by
  rw [getMsb_eq_getMsbD, Display.getMsbSpriteRow sprite left x.val x.isLt, covers, Nat.add_zero]
  by_cases within : x.val < left + 8
  · simp [within]
  · simp [within, BitVec.getMsbD_of_ge _ _ (show 8 ≤ x.val - left by omega)]

/-- Two rows collide where both of them are lit. -/
theorem collides_iff (row sprite : BitVec 64) :
    (row &&& sprite != 0#64) = true ↔
      ∃ x : Fin 64, sprite.getMsb x = true ∧ row.getMsb x = true := by
  rw [bne_iff_ne]
  constructor
  · intro some
    by_contra apart
    apply some
    apply BitVec.eq_of_getMsbD_eq
    intro x inside
    have unlit : ¬ (sprite.getMsb ⟨x, inside⟩ = true ∧ row.getMsb ⟨x, inside⟩ = true) :=
      fun both => apart ⟨⟨x, inside⟩, both⟩
    simp only [getMsb_eq_getMsbD] at unlit
    cases sprite_lit : sprite.getMsbD x <;> cases row_lit : row.getMsbD x <;>
      simp_all [BitVec.getMsbD_and]
  · rintro ⟨x, sprite_lit, row_lit⟩ none
    rw [getMsb_eq_getMsbD] at sprite_lit row_lit
    have both := congrArg (BitVec.getMsbD · x.val) none
    simp only [BitVec.getMsbD_and, sprite_lit, row_lit, BitVec.getMsbD_zero] at both
    cases both

/-- A sprite row that is drawn in place changes one row of the display. -/
theorem drawColumns_bare (sprite : UInt8) (left : Nat) (y : Fin 32) (small : left < 64)
    (collision : Bool) :
    drawColumns sprite left y.val columns collision machine.bare =
      let drawing := machine.display.drawRow left y.val sprite
      .ok (collision || drawing.collision) { machine with display := drawing.display }.bare := by
  have drawn := drawColumns_showing machine sprite left y machine.display.pixel 0 8
    (by decide) small collision
  have pixels : (fun x row => machine.display.pixel x row ^^
      (decide (row = y) && (Display.spriteRow sprite left).getMsb x)) =
      (machine.display.drawRow left y.val sprite).display.pixel := by
    funext x row
    rw [Display.pixelDrawRow]
    simp only [Fin.ext_iff]
  simp only [covers_all, pixels] at drawn
  rw [columns_eq]
  refine drawn.trans ?_
  congr 2
  rw [Bool.eq_iff_iff, decide_eq_true_eq, Display.drawRow, dif_pos y.isLt]
  exact (collides_iff _ _).symm

/-- Nothing is drawn below the bottom edge. -/
theorem drawSprite_below (display : Display) (left top : Nat) (below : 32 ≤ top)
    (rows : List UInt8) : display.drawSprite left top rows = ⟨display, false⟩ := by
  induction rows generalizing top with
  | nil => rfl
  | cons row rest inductionHypothesis =>
      have missed : display.drawRow left top row = ⟨display, false⟩ := by
        rw [Display.drawRow, dif_neg (by omega)]
      simp [Display.drawSprite, missed, inductionHypothesis (top + 1) (by omega)]

theorem readAll_succ (memory : Memory) (start count : Nat) :
    memory.readAll start (count + 1) = memory.read start :: memory.readAll (start + 1) count := by
  simp [Memory.readAll, List.range_succ_eq_map, Nat.add_assoc, Nat.add_comm 1]

/-- The sprite is drawn in place line by line. -/
theorem drawLines_bare (index left top line count : Nat) (small : left < 64)
    (near : index + top + line + count < 0x100000000) (collision : Bool) :
    drawLines index left top (List.range' line count) collision machine.bare =
      let sprite := machine.memory.readAll (index + line) count
      let drawing := machine.display.drawSprite left (top + line) sprite
      .ok (collision || drawing.collision) { machine with display := drawing.display }.bare := by
  induction count generalizing machine line collision with
  | zero => simp [drawLines, Memory.readAll, Display.drawSprite]
  | succ count inductionHypothesis =>
      rw [List.range'_succ, drawLines]
      simp only [bind_apply, sum_small top line (by omega), check_ok, ite_run]
      by_cases below : Display.height ≤ top + line
      · simp [below, drawSprite_below _ _ _ below]
      · obtain ⟨y, row⟩ : ∃ y : Fin 32, y.val = top + line :=
          ⟨⟨top + line, Nat.lt_of_not_le below⟩, rfl⟩
        simp only [below, if_false, sum_small index line (by omega), check_ok, cell_bare]
        rw [← row, drawColumns_bare machine _ left y small]
        simp only
        rw [inductionHypothesis _ (line + 1) (by omega)]
        simp [readAll_succ, Display.drawSprite, row, Bool.or_assoc, Nat.add_assoc]

end Lines

end ChipEight.Bare
