/-
This file unpacks compressed data: literal bytes and copies of earlier bytes, both in prefix codes.
-/
import ChipEight.Archive.Fields
import ChipEight.Archive.PrefixCode

namespace ChipEight.Inflate

/-- An item adds bytes to the output or ends its block. -/
inductive Item where
  | literal (byte : UInt8)
  | copy (length distance : Nat)
  | stop

/-- Each symbol has a base and a count of extra bits that are added to it. -/
structure Scale where
  base : Nat
  extraBits : Nat

/-- The lengths double their step after every four symbols, and the last length stands alone. -/
def lengthScale? (symbol : Nat) : Option Scale :=
  if symbol < 8 then some ⟨3 + symbol, 0⟩
  else if symbol < 28 then
    let extraBits := symbol / 4 - 1
    some ⟨3 + (4 + symbol % 4) <<< extraBits, extraBits⟩
  else if symbol = 28 then some ⟨258, 0⟩
  else none

/-- The distances double their step after every two symbols. -/
def distanceScale? (symbol : Nat) : Option Scale :=
  if symbol < 4 then some ⟨1 + symbol, 0⟩
  else if symbol < 30 then
    let extraBits := symbol / 2 - 1
    some ⟨1 + (2 + symbol % 2) <<< extraBits, extraBits⟩
  else none

/-- A block has one code for literals and lengths and one code for distances. -/
structure Codes where
  literals : PrefixCode
  distances : PrefixCode

/-- A symbol without a scale has no meaning. -/
def scaled (scale? : Option Scale) (source : BitSource) : Except InputFault (Nat × BitSource) :=
  match scale? with
  | none => .error .corrupt
  | some scale => do
      let (extra, source) ← source.number scale.extraBits
      return (scale.base + extra, source)

/-- The symbols below 256 are bytes, 256 ends the block, and the others are lengths. -/
def item (codes : Codes) (source : BitSource) : Except InputFault (Item × BitSource) := do
  let (symbol, source) ← codes.literals.symbol source
  if symbol < 256 then return (.literal (UInt8.ofNat symbol), source)
  else if symbol = 256 then return (.stop, source)
  else
    let (length, source) ← scaled (lengthScale? (symbol - 257)) source
    let (symbol, source) ← codes.distances.symbol source
    let (distance, source) ← scaled (distanceScale? symbol) source
    return (.copy length distance, source)

/-- The output is preceded by zeros, and a copy may reach into itself. -/
def copy (output : Array UInt8) (distance : Nat) : Nat → Array UInt8
  | 0 => output
  | length + 1 =>
      let byte :=
        if distance ≤ output.size then (output[output.size - distance]?).getD 0 else 0
      copy (output.push byte) distance length

/-- Every item takes at least one bit, so the count of bits bounds the count of items. -/
def items (codes : Codes) :
    Nat → Array UInt8 → BitSource → Except InputFault (Array UInt8 × BitSource)
  | 0, _, _ => .error .incomplete
  | bound + 1, output, source => do
      match ← item codes source with
      | (.literal byte, source) => items codes bound (output.push byte) source
      | (.copy length distance, source) => items codes bound (copy output distance length) source
      | (.stop, source) => return (output, source)

/-- A stored block starts at a whole byte with its length and the complement of its length. -/
def stored (output : Array UInt8) (source : BitSource) :
    Except InputFault (Array UInt8 × BitSource) :=
  match Fields.read? [2, 2] source.align.bytes with
  | some ([length, complement], rest) =>
      if length + complement = 0xFFFF then
        match Fields.split? length rest with
        | none => .error .incomplete
        | some (front, rest) => .ok (output ++ front.toArray, .ofBytes rest)
      else .error .corrupt
  | _ => .error .incomplete

/-- The fixed codes need no description. -/
def fixedCodes : Codes where
  literals := .ofLengths
    (List.replicate 144 8 ++ List.replicate 112 9 ++ List.replicate 24 7 ++ List.replicate 8 8)
  distances := .ofLengths (List.replicate 32 5)

/-- The lengths of the code that describes the codes come in this order. -/
def orderOfLengths : List Nat :=
  [16, 17, 18, 0, 8, 7, 9, 6, 10, 5, 11, 4, 12, 3, 13, 2, 14, 1, 15]

def numbers : Nat → Nat → BitSource → Except InputFault (List Nat × BitSource)
  | 0, _, source => .ok ([], source)
  | count + 1, width, source => do
      let (number, source) ← source.number width
      let (rest, source) ← numbers count width source
      return (number :: rest, source)

/-- The extra bits of a repetition are added to its base. -/
def repeated (value base width : Nat) (source : BitSource) :
    Except InputFault (List Nat × BitSource) := do
  let (extra, source) ← source.number width
  return (List.replicate (base + extra) value, source)

/-- A symbol below 16 is a length, and a symbol above it repeats the last length or zero. -/
def lengthsOf (symbol : Nat) (last? : Option Nat) (source : BitSource) :
    Except InputFault (List Nat × BitSource) :=
  if symbol < 16 then .ok ([symbol], source)
  else if symbol = 16 then
    match last? with
    | none => .error .corrupt
    | some last => repeated last 3 2 source
  else if symbol = 17 then repeated 0 3 3 source
  else repeated 0 11 7 source

/-- The lengths are collected last first, and no repetition may pass their end. -/
def lengthsFrom (code : PrefixCode) (total : Nat) :
    Nat → List Nat → BitSource → Except InputFault (List Nat × BitSource)
  | 0, _, _ => .error .corrupt
  | bound + 1, reversed, source =>
      if reversed.length = total then .ok (reversed.reverse, source)
      else if total < reversed.length then .error .corrupt
      else do
        let (symbol, source) ← code.symbol source
        let (lengths, source) ← lengthsOf symbol reversed.head? source
        lengthsFrom code total bound (lengths ++ reversed) source

/-- The lengths that are not given are zero. -/
def describingCode (widths : List Nat) : PrefixCode :=
  let given := orderOfLengths.zip widths
  .ofLengths ((List.range 19).map fun symbol => (given.lookup symbol).getD 0)

/-- The description counts the symbols of both codes and then gives the lengths of all. -/
def describedCodes (source : BitSource) : Except InputFault (Codes × BitSource) := do
  let (moreLiterals, source) ← source.number 5
  let (moreDistances, source) ← source.number 5
  let (moreLengths, source) ← source.number 4
  let literals := 257 + moreLiterals
  let distances := 1 + moreDistances
  if 286 < literals ∨ 30 < distances then .error .corrupt
  else
    let (widths, source) ← numbers (4 + moreLengths) 3 source
    let code := describingCode widths
    if code.isComplete then
      let total := literals + distances
      let (lengths, source) ← lengthsFrom code total (total + 1) [] source
      let codes : Codes :=
        { literals := .ofLengths (lengths.take literals)
          distances := .ofLengths (lengths.drop literals) }
      if codes.literals.isUsable && codes.distances.isUsable then return (codes, source)
      else .error .corrupt
    else .error .corrupt

/-- The two bits after the mark of the last block select its kind. -/
def block (output : Array UInt8) (source : BitSource) :
    Except InputFault (Array UInt8 × BitSource) := do
  match ← source.number 2 with
  | (0, source) => stored output source
  | (1, source) => items fixedCodes (source.remaining + 1) output source
  | (2, source) =>
      let (codes, source) ← describedCodes source
      items codes (source.remaining + 1) output source
  | _ => .error .corrupt

/-- Every block takes at least one bit, so the count of bits bounds the count of blocks. -/
def blocks : Nat → Array UInt8 → BitSource → Except InputFault (Array UInt8)
  | 0, _, _ => .error .incomplete
  | bound + 1, output, source => do
      let (last, source) ← source.bit
      let (output, source) ← block output source
      if last = 1 then return output else blocks bound output source

/-- Of two faults the earlier one in the data counts, and data after the last block is not read. -/
def unpack (data : List UInt8) : Except InputFault (List UInt8) := do
  let source := BitSource.ofBytes data
  let output ← blocks (source.remaining + 1) #[] source
  return output.toList

end ChipEight.Inflate
