/-
This file shows that a call of the owner returns, and that a clock that was stopped stays silent until the
next start.
-/
import ChipEight.Proofs.Clock.Ownership

namespace ChipEight

/-- Only the owner calls. -/
def Clock.Action.isCall : Clock.Action → Bool
  | .call _ => true
  | .proceed | .thread _ => false

/-- The owner is about to start no callback. -/
def Owner.IsQuiet : Owner → Prop
  | .free | .gone => True
  | .called purpose | .joining purpose => ∀ callback, purpose ≠ .start callback
  | .sent _ _ => False

namespace Clock

variable {clock next : Clock} {action : Clock.Action} {purpose : Purpose}

section Silence

/-- Nothing runs, and no callback is about to be started. -/
structure Idle (clock : Clock) : Prop where
  finished : ∀ thread ∈ clock.threads, thread.phase = .finished
  handle : clock.handle? = none
  sender : clock.sender? = none
  owner : clock.owner.IsQuiet

theorem Idle.not_alive (idle : clock.Idle) : clock.isAlive = false := by
  rw [isAlive, List.any_eq_false]
  intro thread member
  rw [idle.finished thread member]
  decide

/-- Only a start can end the silence. -/
theorem Moves.idle (moves : clock.Moves action next) (idle : clock.Idle)
    (startless : ∀ callback, action ≠ .call (.start callback)) :
    next.Idle ∧ next.threads = clock.threads := by
  obtain ⟨finished, handle, sender, quiet⟩ := idle
  cases moves with
  | calls =>
      have other callback same := startless callback (congrArg Action.call same)
      exact ⟨⟨finished, handle, sender, other⟩, rfl⟩
  | passes called =>
      rw [called] at quiet
      exact ⟨⟨finished, handle, sender, quiet⟩, rfl⟩
  | sends _ some => cases sender.symm.trans some
  | drops sent =>
      rw [sent] at quiet
      exact quiet.elim
  | @returns purpose joining =>
      rw [joining] at quiet
      cases purpose with
      | stop | drop => exact ⟨⟨finished, rfl, sender, trivial⟩, rfl⟩
      | start callback => exact absurd rfl (quiet callback)
  | acts found step => exact absurd (finished _ (List.mem_of_getElem? found)) step.unfinished

theorem Idle.after (idle : clock.Idle) {actions : List Clock.Action}
    (startless : ∀ action ∈ actions, ∀ callback, action ≠ .call (.start callback)) :
    (clock.after actions).Idle ∧ (clock.after actions).threads = clock.threads :=
  after_cases (motive := fun later => later.Idle ∧ later.threads = clock.threads) ⟨idle, rfl⟩
    fun action member _ _ moves ⟨idle, same⟩ =>
      have ⟨later, kept⟩ := moves.idle idle (startless action member)
      ⟨later, kept.trans same⟩

/-- With this step the owner returns from the call that it made for the purpose. -/
def Returns (clock : Clock) (purpose : Purpose) (next : Clock) : Prop :=
  clock.owner.purpose? = some purpose ∧ clock.act? .proceed = some next ∧ next.isBusy = false

theorem Returns.cases (returns : clock.Returns purpose next) :
    clock.owner = .joining purpose ∧ next = clock.joined.complete purpose ∧
      ∀ thread, clock.held? = some thread → thread.phase = .finished := by
  obtain ⟨same, acted, free⟩ := returns
  cases moves_of_act? acted with
  | passes | sends | drops => cases free
  | returns joining held =>
      rw [joining] at same
      cases same
      exact ⟨joining, rfl, held⟩

/-- When the owner has stopped the clock or given it up, no thread runs any more. -/
theorem Returns.idle (returns : clock.Returns purpose next) (sound : clock.Sound)
    (startless : ∀ callback, purpose ≠ .start callback) :
    next.Idle := by
  obtain ⟨joining, rfl, held⟩ := returns.cases
  have ends := sound.ends
  rw [Ends, joining] at ends
  cases purpose with
  | stop | drop => exact ⟨sound.finished held, rfl, ends.1, trivial⟩
  | start callback => exact absurd rfl (startless callback)

/-- The thread is inside its callback when the stop begins, and is called back no more. -/
example : Returns
    (after {} [.call (.start fun _ => .goOn), .proceed, .proceed, .thread 0, .call .stop, .proceed,
      .proceed, .thread 0, .thread 0, .thread 0, .thread 0]) .stop
    (after {} [.call (.start fun _ => .goOn), .proceed, .proceed, .thread 0, .call .stop, .proceed,
      .proceed, .thread 0, .thread 0, .thread 0, .thread 0, .proceed]) := ⟨rfl, rfl, rfl⟩

end Silence

section Progress

/-- The held thread has this many actions left, once it was told to end. -/
def heldRest (clock : Clock) : Nat :=
  (clock.held?.map fun thread => thread.phase.rest).getD 0

/-- A call returns after at most this many actions, counted from its message on. -/
def remaining (clock : Clock) : Nat :=
  match clock.owner with
  | .free | .gone => 0
  | .called _ => 7
  | .sent _ _ => clock.heldRest + 2
  | .joining _ => clock.heldRest + 1

theorem heldRest_le (clock : Clock) : clock.heldRest ≤ 4 := by
  rw [heldRest]
  cases clock.held? with
  | none => exact Nat.zero_le 4
  | some thread => exact Thread.rest_le thread.phase

theorem remaining_le (clock : Clock) : clock.remaining ≤ 7 := by
  have rest := clock.heldRest_le
  rw [remaining]
  split <;> omega

theorem Moves.heldRest_le (moves : clock.Moves action next) (sound : clock.Sound)
    (same : next.handle? = clock.handle?)
    (stopped : ∀ thread, clock.held? = some thread → thread.IsStopped) :
    next.heldRest ≤ clock.heldRest := by
  cases held : next.held? with
  | none => simp [heldRest, held]
  | some other =>
      obtain ⟨thread, found, passes⟩ := moves.held sound same held
      simpa [heldRest, held, found] using passes.rest_le (stopped thread found)

/-- A thread that is told to end has less to do behind each of its actions. -/
theorem heldRest_acts {position : Nat} {thread moved : Thread} (handle : clock.handle? = some position)
    (found : clock.threads[position]? = some thread) (step : thread.Moves moved)
    (stopped : ∀ thread, clock.held? = some thread → thread.IsStopped) :
    heldRest { clock with threads := clock.threads.set position moved } < clock.heldRest := by
  have held := (held?_of_handle handle).trans found
  have below := (List.getElem?_eq_some_iff.mp found).1
  have after : held? { clock with threads := clock.threads.set position moved } = some moved := by
    rw [held?, handle]
    exact List.getElem?_set_self below
  rw [heldRest, heldRest, after, held]
  exact (step.rest_lt (stopped thread held)).2

/-- Behind the message each action brings the call nearer to its return, and so does each step of the
owner. -/
theorem Moves.remaining_lt (moves : clock.Moves action next) (sound : clock.Sound)
    (busy : clock.isBusy) (asked : action = .proceed ∨ ∀ purpose, clock.owner ≠ .called purpose) :
    next.remaining < clock.remaining := by
  -- Three steps of the owner lower its own part, and the held thread's actions lower the rest of it.
  have rest := moves.heldRest_le sound
  have ends := sound.ends
  unfold Ends at ends
  cases moves with
  | calls free =>
      rw [isBusy, free] at busy
      cases busy
  | passes called unsent =>
      rw [called] at ends
      have empty : clock.held? = none := by rw [held?, ← ends, unsent]; rfl
      have none : clock.heldRest = 0 := by rw [heldRest, empty]; rfl
      have before : clock.remaining = 7 := by rw [remaining, called]
      change clock.heldRest + 1 < clock.remaining
      omega
  | sends called =>
      have before : clock.remaining = 7 := by rw [remaining, called]
      rw [before, remaining]
      exact Nat.lt_of_le_of_lt (Nat.add_le_add_right (Clock.heldRest_le _) 2) (by decide)
  | drops sent =>
      rw [sent] at ends
      have before : clock.remaining = clock.heldRest + 2 := by rw [remaining, sent]
      rw [before, remaining]
      exact Nat.lt_succ_of_le (Nat.add_le_add_right (rest rfl ends.2.2) 1)
  | @returns purpose joining =>
      have before : clock.remaining = clock.heldRest + 1 := by rw [remaining, joining]
      have after : (clock.joined.complete purpose).remaining = 0 := by cases purpose <;> rfl
      omega
  | @acts position thread moved found step =>
      have rest := heldRest_acts (sound.acts_held found step) found step
      cases owner : clock.owner with
      | free | gone =>
          rw [isBusy, owner] at busy
          cases busy
      | called purpose =>
          rcases asked with proceed | uncalled
          · cases proceed
          · exact absurd owner (uncalled purpose)
      | sent channel purpose =>
          rw [owner] at ends
          rw [remaining, remaining, owner]
          exact Nat.add_lt_add_right (rest ends.2.2) 2
      | joining purpose =>
          rw [owner] at ends
          rw [remaining, remaining, owner]
          exact Nat.add_lt_add_right (rest ends.2) 1

/-- The owner waits for nothing but the held thread. -/
theorem waits_of_proceed? (busy : clock.isBusy) (blocked : clock.proceed? = none) :
    ∃ purpose position, clock.owner = .joining purpose ∧ clock.handle? = some position ∧
      ∀ thread, clock.threads[position]? = some thread → thread.phase ≠ .finished := by
  unfold proceed? at blocked
  split at blocked
  case h_1 owner | h_2 owner =>
    rw [isBusy, owner] at busy
    cases busy
  case h_3 => split at blocked <;> cases blocked
  case h_4 => cases blocked
  case h_5 purpose owner =>
    unfold join? at blocked
    split at blocked
    case h_1 => cases blocked
    case h_2 position handle =>
      refine ⟨purpose, position, owner, handle, fun thread found finished => ?_⟩
      simp [found, finished] at blocked

/-- While a call lasts, either the owner can go on or it waits for a thread that can act. -/
theorem Sound.moves_turn (sound : clock.Sound) (busy : clock.isBusy) :
    ∃ action, action.isCall = false ∧ clock.act action = clock.turn ∧
      clock.Moves action clock.turn ∧
        (action = .proceed ∨ ∀ purpose, clock.owner ≠ .called purpose) := by
  cases proceeded : clock.proceed? with
  | some next =>
      have turned : clock.turn = next := by rw [turn, proceeded]; rfl
      refine ⟨.proceed, rfl, ?_, turned ▸ moves_of_proceed? proceeded, .inl rfl⟩
      rw [turned, act, act?, proceeded]
      rfl
  | none =>
      obtain ⟨purpose, position, owner, handle, unfinished⟩ := waits_of_proceed? busy proceeded
      have last := sound.latest handle
      have found : clock.threads[position]? = some clock.threads[position] :=
        List.getElem?_eq_getElem (by omega)
      obtain ⟨moved, possible⟩ := Option.ne_none_iff_exists'.mp fun none =>
        unfinished _ found (Thread.act?_eq_none_iff.mp none)
      have acted : clock.act? (.thread position) =
          some { clock with threads := clock.threads.set position moved } := by
        rw [act?, actAt?, found]
        simp only [possible]
        rfl
      have turned : clock.act (.thread position) = clock.turn := by
        rw [turn, proceeded, ← last]
        rfl
      have moves : clock.Moves (.thread position) clock.turn := by
        rw [← turned, act, acted]
        exact moves_of_act? acted
      exact ⟨.thread position, rfl, turned, moves, .inr fun _ called => by cases owner.symm.trans called⟩

/-- A call returns when the owner goes on until then. -/
theorem settle_free {fuel : Nat} (sound : clock.Sound) (enough : clock.remaining ≤ fuel) :
    (settle fuel clock).isBusy = false ∧
      ∃ actions, (∀ action ∈ actions, action.isCall = false) ∧
        settle fuel clock = clock.after actions := by
  induction fuel generalizing clock with
  | zero =>
      cases busy : clock.isBusy with
      | false => exact ⟨busy, [], by simp, rfl⟩
      | true =>
          obtain ⟨action, -, -, moves, asked⟩ := sound.moves_turn busy
          have nearer := moves.remaining_lt sound busy asked
          omega
  | succ fuel inductionHypothesis =>
      rw [settle]
      cases busy : clock.isBusy with
      | false => exact ⟨busy, [], by simp, rfl⟩
      | true =>
          obtain ⟨action, other, acts, moves, asked⟩ := sound.moves_turn busy
          have nearer := moves.remaining_lt sound busy asked
          obtain ⟨free, actions, others, same⟩ := inductionHypothesis (moves.sound sound) (by omega)
          refine ⟨free, action :: actions, List.forall_mem_cons.mpr ⟨other, others⟩, ?_⟩
          exact same.trans (congrArg (after · actions) acts.symm)

end Progress

end Clock
end ChipEight
