/-
This file shows that a running machine never looks at the period in its settings.
-/
import ChipEight.Proofs.Settings

namespace ChipEight

/-- The settings get another period; the cadence keeps its own. -/
def Machine.withPeriod (machine : Machine) (period : UInt32) : Machine :=
  { machine with config := { machine.config with cyclesPerTick := period } }

def Reply.withPeriod (period : UInt32) (reply : Reply) : Reply :=
  { reply with machine := reply.machine.withPeriod period }

namespace Machine

theorem replies_withPeriod (machine : Machine) (period : UInt32) (operations : List Operation) :
    (machine.withPeriod period).replies operations =
      (machine.replies operations).map (Reply.withPeriod period) := by
  obtain ⟨replies, -⟩ := machine.run_withConfig { machine.config with cyclesPerTick := period }
    operations (fun _ _ _ => rfl) fun _ _ _ => rfl
  refine replies.trans (List.map_congr_left fun reply inside => ?_)
  simp only [Reply.withConfig, Reply.withPeriod, withConfig, withPeriod,
    (machine.replies_sameSettings operations reply inside).config]

/-- The periods zero and one start the same cadence. -/
theorem initial_zero (config : Config) (source : Generator) :
    initial { config with cyclesPerTick := 1 } source =
      (initial { config with cyclesPerTick := 0 } source).withPeriod 1 := rfl

end Machine
end ChipEight
