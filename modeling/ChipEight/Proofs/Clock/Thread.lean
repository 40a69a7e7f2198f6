/-
This file says once what an action of a thread of the clock can do, and what follows for the calls of its
callback.
-/
import Mathlib.Tactic.ByContra
import ChipEight.Clock

namespace ChipEight

/-- The thread has left its loop. -/
def Phase.isOver : Phase → Bool
  | .waiting | .calling => false
  | .leaving | .closing | .finished => true

/-- A thread that is told to end has at most this many actions left. -/
def Phase.rest : Phase → Nat
  | .calling => 4
  | .waiting => 3
  | .leaving => 2
  | .closing => 1
  | .finished => 0

namespace Thread

variable {thread next : Thread}

section Moves

/-- All that one action of a thread can do. -/
inductive Moves (thread : Thread) : Thread → Prop where
  | told : thread.phase = .waiting → thread.message = true →
      Moves thread { thread with message := false, phase := .leaving }
  | enters : thread.phase = .waiting → thread.message = false → thread.connected = true →
      Moves thread { thread with phase := .calling }
  | lost : thread.phase = .waiting → thread.message = false → thread.connected = false →
      Moves thread { thread with phase := .leaving }
  | goesOn : thread.phase = .calling → thread.callback thread.calls = .goOn →
      Moves thread { thread with calls := thread.calls + 1, phase := .waiting }
  | finishes : thread.phase = .calling → thread.callback thread.calls = .finish →
      Moves thread { thread with calls := thread.calls + 1, phase := .leaving }
  | panics : thread.phase = .calling → thread.callback thread.calls = .panic →
      Moves thread { thread with calls := thread.calls + 1, phase := .leaving, panicked := true }
  | leaves : thread.phase = .leaving → Moves thread { thread with phase := .closing }
  | closes : thread.phase = .closing → Moves thread { thread with phase := .finished }

theorem moves_of_act? (acted : thread.act? = some next) : thread.Moves next := by
  unfold act? at acted
  split at acted
  case h_1 phase =>
    split at acted
    case isTrue message =>
      cases acted
      exact .told phase message
    case isFalse silent =>
      split at acted <;> cases acted
      case isTrue connected => exact .enters phase (eq_false_of_ne_true silent) connected
      case isFalse lost => exact .lost phase (eq_false_of_ne_true silent) (eq_false_of_ne_true lost)
  case h_2 phase =>
    cases acted
    unfold answered
    cases verdict : thread.callback thread.calls with
    | goOn => exact .goesOn phase verdict
    | finish => exact .finishes phase verdict
    | panic => exact .panics phase verdict
  case h_3 phase =>
    cases acted
    exact .leaves phase
  case h_4 phase =>
    cases acted
    exact .closes phase
  case h_5 => cases acted

/-- A finished thread does nothing. -/
theorem Moves.unfinished (moves : thread.Moves next) : thread.phase ≠ .finished := by
  intro finished
  cases moves with
  | told phase | enters phase | lost phase | goesOn phase | finishes phase | panics phase
  | leaves phase | closes phase => cases phase.symm.trans finished

/-- Only a finished thread cannot act. -/
theorem act?_eq_none_iff : thread.act? = none ↔ thread.phase = .finished := by
  unfold act?
  cases thread.phase with
  | waiting => cases thread.message <;> cases thread.connected <;> simp
  | _ => simp

end Moves

section Calls

/-- The calls that were answered, and the one that the thread is inside of. -/
def begun (thread : Thread) : Nat :=
  if thread.phase = .calling then thread.calls + 1 else thread.calls

theorem inside_of_waiting (phase : thread.phase = .waiting) : ¬ thread.phase.isOver := by
  rw [phase]
  decide

theorem inside_of_calling (phase : thread.phase = .calling) : ¬ thread.phase.isOver := by
  rw [phase]
  decide

/-- A call that was not answered to go on is the last one, and the loop is over. -/
def Regular (thread : Thread) : Prop :=
  ∀ call < thread.calls, thread.callback call ≠ .goOn →
    call + 1 = thread.calls ∧ thread.phase.isOver

theorem begun_of_over (outside : thread.phase.isOver) : thread.begun = thread.calls :=
  if_neg fun phase => inside_of_calling phase outside

/-- The loop stays over, and with it the calls of the callback. -/
theorem Moves.stays_over (moves : thread.Moves next) (outside : thread.phase.isOver) :
    next.phase.isOver ∧ next.calls = thread.calls := by
  cases moves with
  | leaves | closes => exact ⟨rfl, rfl⟩
  | told phase | enters phase | lost phase => exact absurd outside (inside_of_waiting phase)
  | goesOn phase | finishes phase | panics phase => exact absurd outside (inside_of_calling phase)

theorem Moves.regular (moves : thread.Moves next) (regular : thread.Regular) : next.Regular := by
  -- Inside the callback all earlier calls were answered to go on, so only this one can end the loop.
  have answers {call : Nat} (phase : thread.phase = .calling) (below : call < thread.calls + 1)
      (stopped : thread.callback call ≠ .goOn) : call = thread.calls := by
    by_contra other
    exact inside_of_calling phase (regular call (by omega) stopped).2
  intro call below stopped
  cases moves with
  | goesOn phase verdict =>
      cases answers phase below stopped
      exact absurd verdict stopped
  | finishes phase | panics phase =>
      cases answers phase below stopped
      exact ⟨rfl, rfl⟩
  | told | lost | leaves | closes => exact ⟨(regular call below stopped).1, rfl⟩
  | enters phase => exact absurd (regular call below stopped).2 (inside_of_waiting phase)

end Calls

section Ending

/-- The thread was told to end, or ends by itself. -/
def IsStopped (thread : Thread) : Prop :=
  thread.phase.isOver ∨ thread.message = true ∨ thread.connected = false

/-- Each action brings a thread that was told to end nearer to its end. -/
theorem Moves.rest_lt (moves : thread.Moves next) (stopped : thread.IsStopped) :
    next.IsStopped ∧ next.phase.rest < thread.phase.rest := by
  cases moves with
  | enters phase silent connected =>
      rcases stopped with outside | message | lost
      · exact absurd outside (inside_of_waiting phase)
      · cases silent.symm.trans message
      · cases connected.symm.trans lost
  | goesOn phase =>
      rw [phase]
      refine ⟨.inr ?_, by simp [Phase.rest]⟩
      rcases stopped with outside | sent
      · exact absurd outside (inside_of_calling phase)
      · exact sent
  | told phase | lost phase | finishes phase | panics phase | leaves phase | closes phase =>
      rw [phase]
      exact ⟨.inl rfl, by simp [Phase.rest]⟩

theorem rest_le (phase : Phase) : phase.rest ≤ 4 := by
  cases phase <;> decide

theorem send_phase (thread : Thread) : thread.send.phase = thread.phase := by
  unfold send
  split <;> rfl

theorem send_calls (thread : Thread) : thread.send.calls = thread.calls := by
  unfold send
  split <;> rfl

theorem send_callback (thread : Thread) : thread.send.callback = thread.callback := by
  unfold send
  split <;> rfl

theorem send_stopped (thread : Thread) : thread.send.IsStopped := by
  unfold send
  split
  case isTrue finished => exact .inl (by rw [finished]; rfl)
  case isFalse => exact .inr (.inl rfl)

end Ending

section Counters

/-- The thread counts its calls up to a limit, and nobody has told it to end. -/
structure Counts (limit : Nat) (thread : Thread) : Prop where
  callback : thread.callback = Clock.countBelow limit
  silent : thread.message = false
  connected : thread.connected = true
  calls : if thread.phase.isOver then thread.calls = max limit 1 else thread.calls < max limit 1

/-- A thread that nobody tells to end has acted this often. -/
def acts (thread : Thread) : Nat :=
  2 * thread.calls +
    match thread.phase with
    | .waiting | .leaving => 0
    | .calling | .closing => 1
    | .finished => 2

variable {limit : Nat}

/-- Each action brings a counting thread one step nearer to its end. -/
theorem Moves.counts (moves : thread.Moves next) (counts : thread.Counts limit) :
    next.Counts limit ∧ next.acts = thread.acts + 1 := by
  obtain ⟨callback, silent, connected, calls⟩ := counts
  have verdict : thread.callback thread.calls =
      if thread.calls + 1 < limit then .goOn else .finish := by rw [callback]; rfl
  cases moves with
  | told _ message => cases silent.symm.trans message
  | lost _ _ lost => cases connected.symm.trans lost
  | enters phase =>
      rw [phase] at calls
      exact ⟨⟨callback, silent, connected, calls⟩, by simp [acts, phase]⟩
  | goesOn phase goOn =>
      have below : thread.calls + 1 < limit := by
        by_contra above
        rw [verdict, if_neg above] at goOn
        cases goOn
      have more : thread.calls + 1 < max limit 1 := by omega
      exact ⟨⟨callback, silent, connected, more⟩, by simp [acts, phase]; omega⟩
  | finishes phase finish =>
      have above : ¬ thread.calls + 1 < limit := by
        intro below
        rw [verdict, if_pos below] at finish
        cases finish
      rw [phase] at calls
      simp only [Phase.isOver, Bool.false_eq_true, if_false] at calls
      have last : thread.calls + 1 = max limit 1 := by omega
      exact ⟨⟨callback, silent, connected, last⟩, by simp [acts, phase]; omega⟩
  | panics phase panic =>
      rw [verdict] at panic
      split at panic <;> cases panic
  | leaves phase | closes phase =>
      rw [phase] at calls
      exact ⟨⟨callback, silent, connected, calls⟩, by simp [acts, phase]⟩

/-- A counting thread that is no longer counted has made all its calls. -/
theorem Counts.uncounted (counts : thread.Counts limit) (uncounted : thread.phase.isCounted = false) :
    thread.phase.isOver ∧ thread.calls = max limit 1 := by
  have calls := counts.calls
  cases phase : thread.phase with
  | waiting | calling | leaving =>
      rw [phase] at uncounted
      cases uncounted
  | closing | finished =>
      rw [phase] at calls
      exact ⟨rfl, calls⟩

/-- A thread that has acted often enough is at its end. -/
theorem Counts.acts_lt (counts : thread.Counts limit) (counted : thread.phase.isCounted) :
    thread.acts < 2 * max limit 1 + 1 := by
  have calls := counts.calls
  unfold acts
  cases phase : thread.phase with
  | waiting | calling | leaving =>
      rw [phase] at calls
      simp only [Phase.isOver, Bool.false_eq_true, if_true, if_false] at calls ⊢
      omega
  | closing | finished =>
      rw [phase] at counted
      cases counted

theorem Counts.acts_finished (counts : thread.Counts limit) (finished : thread.phase = .finished) :
    thread.acts = 2 * max limit 1 + 2 := by
  have calls := counts.calls
  rw [finished] at calls
  have all : thread.calls = max limit 1 := calls
  rw [acts, finished, all]

end Counters

end Thread
end ChipEight
