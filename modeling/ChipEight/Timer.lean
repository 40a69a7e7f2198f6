/-
This file holds the countdown timers and the cadence that drives them.
-/

namespace ChipEight

/-- A timer counts down to zero. -/
structure Timer where
  value : UInt8 := 0
  deriving DecidableEq

namespace Timer

def isActive (timer : Timer) : Bool := 0 < timer.value

/-- A timer that reached zero stays there. -/
def decrement (timer : Timer) : Timer :=
  if timer.isActive then ⟨timer.value - 1⟩ else timer

theorem decrementValue (timer : Timer) :
    timer.decrement.value.toNat = timer.value.toNat - 1 := by
  unfold decrement isActive
  by_cases active : 0 < timer.value
  · have positive := UInt8.lt_iff_toNat_lt.mp active
    have one : (1 : UInt8) ≤ timer.value := UInt8.le_iff_toNat_le.mpr positive
    simp [active, UInt8.toNat_sub_of_le _ _ one]
  · have zero : timer.value = 0 := by simpa using active
    simp [zero]

end Timer

/-- A cadence counts the instructions between two decrements of the timers. -/
structure Cadence where
  threshold : UInt32
  cycle : UInt32
  below : cycle < threshold

namespace Cadence

/-- A period of zero counts as one. -/
def ofPeriod (period : UInt32) : Cadence where
  threshold := if period = 0 then 1 else period
  cycle := 0
  below := by
    split
    · decide
    · rename_i nonzero
      exact UInt32.pos_iff_ne_zero.mpr nonzero

/-- The cycle starts again when it would reach the threshold. -/
def advance (cadence : Cadence) : Cadence :=
  if below : cadence.cycle + 1 < cadence.threshold then
    { cadence with cycle := cadence.cycle + 1, below := below }
  else
    { cadence with
      cycle := 0
      below := UInt32.lt_of_le_of_lt (UInt32.zero_le) cadence.below }

/-- The timers are due on the instruction that completes a cycle. -/
def isDue (cadence : Cadence) : Bool :=
  cadence.threshold ≤ cadence.cycle + 1

def restart (cadence : Cadence) : Cadence :=
  { cadence with
    cycle := 0
    below := UInt32.lt_of_le_of_lt (UInt32.zero_le) cadence.below }

theorem ofPeriodThreshold (period : UInt32) : (ofPeriod period).threshold = max period 1 := by
  change (if period = 0 then 1 else period) = if period ≤ 1 then 1 else period
  grind

/-- The cycle counts modulo the threshold. -/
theorem advanceCycle (cadence : Cadence) :
    cadence.advance.cycle.toNat = (cadence.cycle.toNat + 1) % cadence.threshold.toNat := by
  have below := UInt32.lt_iff_toNat_lt.mp cadence.below
  have small := cadence.threshold.toNat_lt
  have whole : (cadence.cycle + 1).toNat = cadence.cycle.toNat + 1 := by
    simp [UInt32.toNat_add]
    omega
  unfold advance
  split
  · rename_i next
    rw [UInt32.lt_iff_toNat_lt, whole] at next
    rw [Nat.mod_eq_of_lt next, ← whole]
  · rename_i next
    rw [UInt32.lt_iff_toNat_lt, whole] at next
    rw [show cadence.cycle.toNat + 1 = cadence.threshold.toNat by omega, Nat.mod_self]
    rfl

theorem advanceThreshold (cadence : Cadence) :
    cadence.advance.threshold = cadence.threshold := by
  unfold advance
  split <;> rfl

theorem isDueIff (cadence : Cadence) :
    cadence.isDue ↔ cadence.cycle.toNat + 1 = cadence.threshold.toNat := by
  have below := cadence.below
  have small := cadence.threshold.toNat_lt
  rw [UInt32.lt_iff_toNat_lt] at below
  simp [isDue, UInt32.le_iff_toNat_le]
  omega

end Cadence
end ChipEight
