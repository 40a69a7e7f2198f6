/-
This file holds the settings of a machine.
-/

namespace ChipEight

/-- The settings stay fixed while a machine runs. -/
structure Config where
  /-- The timers count down once in this many instructions. -/
  cyclesPerTick : UInt32 := 10
  /-- The clock asks for this many instructions in a second. -/
  hertz : UInt64 := 360
  /-- The seed fixes all random bytes. -/
  seed : Option UInt64 := none
  /-- A shift stores the bit that it loses. -/
  shiftSetsFlag : Bool := false
  /-- The timers go on while the machine waits for a key. -/
  tickWhileBlocked : Bool := false
  deriving DecidableEq

/-- The interval lies between two instructions, in whole microseconds. -/
def Config.interval (config : Config) : Nat :=
  1000000 / max config.hertz.toNat 1

end ChipEight
