/-
This file reads bits from bytes, the lowest bit of each byte first.
-/
import ChipEight.InputFault

namespace ChipEight

/-- The source holds the unread bits of the byte begun last and the bytes after it. -/
structure BitSource where
  held : Nat
  count : Nat
  bytes : List UInt8

namespace BitSource

def ofBytes (bytes : List UInt8) : BitSource := ⟨0, 0, bytes⟩

def remaining (source : BitSource) : Nat :=
  source.count + 8 * source.bytes.length

/-- The next bit is a number below two. -/
def bit (source : BitSource) : Except InputFault (Nat × BitSource) :=
  match source.count, source.bytes with
  | count + 1, bytes => .ok (source.held % 2, ⟨source.held / 2, count, bytes⟩)
  | 0, byte :: bytes => .ok (byte.toNat % 2, ⟨byte.toNat / 2, 7, bytes⟩)
  | 0, [] => .error .incomplete

/-- The first bit of a number counts ones. -/
def number : Nat → BitSource → Except InputFault (Nat × BitSource)
  | 0, source => .ok (0, source)
  | width + 1, source => do
      let (bit, source) ← source.bit
      let (rest, source) ← number width source
      return (bit + 2 * rest, source)

/-- The bits up to the next whole byte are dropped. -/
def align (source : BitSource) : BitSource :=
  { source with held := 0, count := 0 }

end BitSource
end ChipEight
