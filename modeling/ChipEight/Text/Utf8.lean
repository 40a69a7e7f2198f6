/-
This file reads text in UTF-8 whose bytes may be damaged.
-/

namespace ChipEight.Utf8

/-- A replacement stands for bytes that form no character. -/
def replacement : Char := '\ufffd'

/-- A begun character keeps the bits read so far and the ranges of the bytes still to come. -/
structure Begun where
  bits : Nat
  ranges : List (Nat × Nat)

/-- A byte after the first one lies in this range, unless the first one narrows it. -/
def tail : Nat × Nat := (0x80, 0xBF)

/-- The first byte tells how many bytes follow. The narrow ranges leave out the numbers that have a
shorter form, the surrogates, and the numbers beyond the last character. -/
def begin? (byte : Nat) : Option Begun :=
  if byte < 0x80 then some ⟨byte, []⟩
  else if byte < 0xC2 then none
  else if byte < 0xE0 then some ⟨byte - 0xC0, [tail]⟩
  else if byte = 0xE0 then some ⟨0x0, [(0xA0, 0xBF), tail]⟩
  else if byte = 0xED then some ⟨0xD, [(0x80, 0x9F), tail]⟩
  else if byte < 0xF0 then some ⟨byte - 0xE0, [tail, tail]⟩
  else if byte = 0xF0 then some ⟨0, [(0x90, 0xBF), tail, tail]⟩
  else if byte < 0xF4 then some ⟨byte - 0xF0, [tail, tail, tail]⟩
  else if byte = 0xF4 then some ⟨4, [(0x80, 0x8F), tail, tail]⟩
  else none

/-- The next byte adds six bits if it lies in its range. -/
def Begun.follow? (begun : Begun) (byte : Nat) : Option Begun :=
  match begun.ranges with
  | [] => none
  | (low, high) :: others =>
      if low ≤ byte ∧ byte ≤ high then some ⟨0x40 * begun.bits + (byte - 0x80), others⟩ else none

/-- A character is written as soon as its last byte is read. -/
def Begun.settle (begun : Begun) : List Char × Option Begun :=
  if begun.ranges.isEmpty then ([Char.ofNat begun.bits], none) else ([], some begun)

/-- A byte that begins no character is replaced. -/
def start (byte : Nat) : List Char × Option Begun :=
  match begin? byte with
  | some begun => begun.settle
  | none => ([replacement], none)

/-- The bytes of a character that is broken off are replaced together, and the byte after them
begins anew. -/
def step (begun? : Option Begun) (byte : Nat) : List Char × Option Begun :=
  match begun? with
  | none => start byte
  | some begun =>
      match begun.follow? byte with
      | some longer => longer.settle
      | none => (replacement :: (start byte).1, (start byte).2)

/-- The end of the bytes can break off a character too. -/
def charsFrom : Option Begun → List UInt8 → List Char
  | none, [] => []
  | some _, [] => [replacement]
  | begun?, byte :: rest =>
      (step begun? byte.toNat).1 ++ charsFrom (step begun? byte.toNat).2 rest

/-- Bytes without damage are the text that they encode. -/
def decode (bytes : List UInt8) : String :=
  (String.fromUTF8? ⟨bytes.toArray⟩).getD (String.ofList (charsFrom none bytes))

theorem decodeEncode (text : String) : decode text.toUTF8.data.toList = text := by
  have valid : (ByteArray.mk text.toUTF8.data.toList.toArray).IsValidUTF8 := by
    simpa using text.isValidUTF8
  have same : String.fromUTF8? ⟨text.toUTF8.data.toList.toArray⟩ = some text := by
    rw [String.fromUTF8?, dif_pos valid]
    rfl
  rw [decode, same]
  rfl

end ChipEight.Utf8
