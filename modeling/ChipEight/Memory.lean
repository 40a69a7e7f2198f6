/-
This file holds the memory, whose addresses wrap around at its end.
-/
import ChipEight.Font

namespace ChipEight

/-- The memory has 4096 cells of one byte. -/
structure Memory where
  cells : Vector UInt8 4096

namespace Memory

def size : Nat := 4096

/-- A program starts at this address. -/
def programStart : Nat := 0x200

/-- A program image reaches at most from its start to the end of the memory. -/
def programCapacity : Nat := size - programStart

/-- An address past the end counts again from the start. -/
def read (memory : Memory) (address : Nat) : UInt8 :=
  memory.cells[address % 4096]

def write (memory : Memory) (address : Nat) (value : UInt8) : Memory :=
  ⟨memory.cells.set (address % 4096) value⟩

/-- The window holds the given count of cells from the start address on. -/
def readAll (memory : Memory) (start count : Nat) : List UInt8 :=
  (List.range count).map fun offset => memory.read (start + offset)

/-- The bytes go to consecutive addresses. -/
def writeAll (memory : Memory) (start : Nat) : List UInt8 → Memory
  | [] => memory
  | value :: rest => (memory.write start value).writeAll (start + 1) rest

/-- The memory starts with the font and zeros. -/
def initial : Memory :=
  Memory.writeAll ⟨Vector.replicate 4096 0⟩ Font.location Font.glyphs

/-- Only the remainder of an address matters. -/
theorem readCongr (memory : Memory) {address other : Nat} (same : address % 4096 = other % 4096) :
    memory.read address = memory.read other := by
  simp only [read, same]

theorem readAllCongr (memory : Memory) {start other : Nat} (count : Nat)
    (same : start % 4096 = other % 4096) :
    memory.readAll start count = memory.readAll other count := by
  have next (offset : Nat) : memory.read (start + offset) = memory.read (other + offset) :=
    memory.readCongr (by omega)
  simp only [readAll, next]

theorem writeAllCongr (memory : Memory) {start other : Nat} (bytes : List UInt8)
    (same : start % 4096 = other % 4096) :
    memory.writeAll start bytes = memory.writeAll other bytes := by
  induction bytes generalizing memory start other with
  | nil => rfl
  | cons byte rest inductionHypothesis =>
      have written : memory.write start byte = memory.write other byte := by
        simp only [write, same]
      have next : (start + 1) % 4096 = (other + 1) % 4096 := by omega
      rw [writeAll, writeAll, written, inductionHypothesis _ next]

theorem readWrite (memory : Memory) (address other : Nat) (value : UInt8) :
    (memory.write address value).read other =
      if address % 4096 = other % 4096 then value else memory.read other := by
  simp only [read, write, Vector.getElem_set]

/-- The bytes leave every other cell alone. -/
theorem readWriteAllOutside (memory : Memory) (start address : Nat) (bytes : List UInt8)
    (outside : ∀ offset < bytes.length, (start + offset) % 4096 ≠ address % 4096) :
    (memory.writeAll start bytes).read address = memory.read address := by
  induction bytes generalizing memory start with
  | nil => rfl
  | cons byte rest inductionHypothesis =>
      rw [writeAll, inductionHypothesis, readWrite, if_neg]
      · exact outside 0 (by simp)
      · intro offset inside
        have next := outside (offset + 1) (by simpa using inside)
        simpa [Nat.add_assoc, Nat.add_comm 1] using next

/-- Bytes that fit into the memory do not overwrite each other. -/
theorem readWriteAllInside (memory : Memory) (start offset : Nat) (bytes : List UInt8)
    (short : bytes.length ≤ 4096) (inside : offset < bytes.length) :
    (memory.writeAll start bytes).read (start + offset) = bytes[offset] := by
  induction bytes generalizing memory start offset with
  | nil => simp at inside
  | cons byte rest inductionHypothesis =>
      simp only [List.length_cons] at short inside
      cases offset with
      | zero =>
          rw [writeAll, readWriteAllOutside, readWrite]
          · simp
          · intro offset below
            omega
      | succ offset =>
          have next := inductionHypothesis (memory.write start byte) (start + 1) offset
            (by omega) (by omega)
          rw [writeAll, show start + (offset + 1) = start + 1 + offset by omega, next]
          rfl

/-- The distance from the start to an address, where the way may lead around the end. -/
def distance (start address : Nat) : Nat := (address + (4096 - start % 4096)) % 4096

theorem distanceIff (start address offset : Nat) (short : offset < 4096) :
    distance start address = offset ↔ (start + offset) % 4096 = address % 4096 := by
  unfold distance
  omega

/-- A cell holds the byte at its distance from the start, if there is one. -/
theorem readWriteAll (memory : Memory) (start address : Nat) (bytes : List UInt8)
    (short : bytes.length ≤ 4096) :
    (memory.writeAll start bytes).read address =
      bytes[distance start address]?.getD (memory.read address) := by
  by_cases inside : distance start address < bytes.length
  · have place := (distanceIff start address _ (by omega)).mp rfl
    rw [← readCongr _ place, readWriteAllInside memory start _ bytes short inside]
    simp [inside]
  · rw [readWriteAllOutside]
    · simp [inside]
    · intro offset below place
      have reached := (distanceIff start address offset (by omega)).mpr place
      omega

end Memory
end ChipEight
