/-
This file holds the sources of random bytes.
-/

namespace ChipEight

/-- The state of the xoshiro256++ generator is four words. -/
structure Xoshiro where
  s0 : UInt64
  s1 : UInt64
  s2 : UInt64
  s3 : UInt64
  deriving DecidableEq

/-- The bits that leave at the left come back at the right. -/
def rotateLeft (value : UInt64) (count : UInt64) : UInt64 :=
  value <<< count ||| value >>> (64 - count)

namespace Xoshiro

/-- The seeding generator is linear congruential. -/
def seedStep (state : UInt64) : UInt64 :=
  state * 6364136223846793005 + 11634580027462260723

/-- The seeding word is the state after an xor-shift and a random rotation. -/
def seedWord (state : UInt64) : UInt64 :=
  let mixed := (((state >>> 18) ^^^ state) >>> 27).toUInt32
  let count := (state >>> 59).toUInt32
  (mixed >>> count ||| mixed <<< ((32 - count) % 32)).toUInt64

/-- The state after the given count of seeding steps. -/
def seedState (seed : UInt64) : Nat → UInt64
  | 0 => seed
  | count + 1 => seedState (seedStep seed) count

/-- Two seeding words form one word of the state, the low half first. -/
def seedPair (seed : UInt64) (index : Nat) : UInt64 :=
  seedWord (seedState seed (2 * index + 1)) |||
    seedWord (seedState seed (2 * index + 2)) <<< 32

def ofSeed (seed : UInt64) : Xoshiro :=
  ⟨seedPair seed 0, seedPair seed 1, seedPair seed 2, seedPair seed 3⟩

/-- The result scrambles the first and the last word of the state. -/
def output (state : Xoshiro) : UInt64 :=
  rotateLeft (state.s0 + state.s3) 23 + state.s0

def next (state : Xoshiro) : Xoshiro :=
  let s2 := state.s2 ^^^ state.s0
  let s3 := state.s3 ^^^ state.s1
  { s0 := state.s0 ^^^ s3
    s1 := state.s1 ^^^ s2
    s2 := s2 ^^^ (state.s1 <<< 17)
    s3 := rotateLeft s3 45 }

end Xoshiro

/-- A generator yields one byte after another. -/
inductive Generator where
  /-- The bytes come from a seeded state. -/
  | seeded (state : Xoshiro)
  /-- The bytes are the low bytes of an arithmetic sequence. -/
  | arithmetic (value step : UInt64)
  /-- The bytes stand on a given tape. -/
  | tape (bytes : Nat → UInt8) (position : Nat)

namespace Generator

/-- The seeded byte is the lowest byte of the high half of the output. -/
def byte : Generator → UInt8
  | .seeded state => (state.output >>> 32).toUInt8
  | .arithmetic value _ => value.toUInt8
  | .tape bytes position => bytes position

def next : Generator → Generator
  | .seeded state => .seeded state.next
  | .arithmetic value step => .arithmetic (value + step) step
  | .tape bytes position => .tape bytes (position + 1)

end Generator
end ChipEight
