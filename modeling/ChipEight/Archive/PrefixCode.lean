/-
This file decodes symbols of a canonical code, which is given by the lengths of its code words.
-/
import ChipEight.Archive.BitSource

namespace ChipEight

/-- The code words of one length are consecutive and stand for ascending symbols. -/
structure PrefixCode where
  /-- The counts tell how many code words have one bit, two bits, and so on. -/
  counts : List Nat
  /-- The symbols stand in the order of their code words. -/
  symbols : Array Nat

namespace PrefixCode

def longest : Nat := 15

/-- The symbol without a length is not used. -/
def ofLengths (lengths : List Nat) : PrefixCode where
  counts := (List.range longest).map fun shorter => lengths.count (shorter + 1)
  symbols := ((List.range longest).flatMap fun shorter =>
    (lengths.zipIdx.filter fun entry => entry.1 == shorter + 1).map Prod.snd).toArray

/-- The share of the code words that are in use, in units of the longest code word. -/
def usedShare (code : PrefixCode) : Nat :=
  code.counts.foldl (fun share count => 2 * share + count) 0

/-- Every sequence of bits starts with a code word. -/
def isComplete (code : PrefixCode) : Bool :=
  code.usedShare == 1 <<< longest

/-- A code with gaps is useful only if it has no symbol, or one symbol with a single bit. -/
def isUsable (code : PrefixCode) : Bool :=
  code.isComplete || code.symbols.isEmpty ||
    (code.symbols.size == 1 && code.counts.head? == some 1)

/-- The code words of each length start after the last shorter one, followed by a zero. Bits that
no code word starts with are a fault as soon as they are read. -/
def symbolFrom (symbols : Array Nat) :
    List Nat → Nat → Nat → Nat → BitSource → Except InputFault (Nat × BitSource)
  | [], _, _, _, _ => .error .corrupt
  | count :: counts, word, first, index, source => do
      let (bit, source) ← source.bit
      let word := 2 * word + bit
      if word < first + count then
        match symbols[index + (word - first)]? with
        | some symbol => return (symbol, source)
        | none => .error .corrupt
      else if counts.all (· == 0) then .error .corrupt
      else symbolFrom symbols counts word (2 * (first + count)) (index + count) source

/-- The bits of a code word come highest first. -/
def symbol (code : PrefixCode) (source : BitSource) : Except InputFault (Nat × BitSource) :=
  symbolFrom code.symbols code.counts 0 0 0 source

end PrefixCode
end ChipEight
