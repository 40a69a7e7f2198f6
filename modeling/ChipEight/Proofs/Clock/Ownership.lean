/-
This file shows that the owner of a clock and its threads keep to their parts in every interleaving: the
clock holds the latest thread, and all others have finished.
-/
import ChipEight.Proofs.Clock.Thread

namespace ChipEight

namespace Thread

variable {thread next : Thread}

/-- An action leaves a thread as it was, or it is an action on this thread or of it. -/
inductive Passes (thread : Thread) : Thread → Prop where
  | same : Passes thread thread
  | sent : Passes thread thread.send
  | disconnected : Passes thread thread.disconnect
  | moved {next : Thread} : thread.Moves next → Passes thread next

theorem Passes.regular (passes : thread.Passes next) (regular : thread.Regular) : next.Regular := by
  cases passes with
  | same => exact regular
  | sent =>
      unfold Regular
      rw [send_calls, send_callback, send_phase]
      exact regular
  | disconnected => exact regular
  | moved moves => exact moves.regular regular

theorem Passes.stays_over (passes : thread.Passes next) (outside : thread.phase.isOver) :
    next.phase.isOver ∧ next.calls = thread.calls := by
  cases passes with
  | same | disconnected => exact ⟨outside, rfl⟩
  | sent => exact ⟨send_phase thread ▸ outside, send_calls thread⟩
  | moved moves => exact moves.stays_over outside

theorem Passes.finished (passes : thread.Passes next) (finished : thread.phase = .finished) :
    next.phase = .finished := by
  cases passes with
  | same | disconnected => exact finished
  | sent => exact (send_phase thread).trans finished
  | moved moves => exact absurd finished moves.unfinished

theorem Passes.stopped (passes : thread.Passes next) (stopped : thread.IsStopped) :
    next.IsStopped := by
  cases passes with
  | same => exact stopped
  | sent => exact thread.send_stopped
  | disconnected => exact .inr (.inr rfl)
  | moved moves => exact (moves.rest_lt stopped).1

theorem Passes.rest_le (passes : thread.Passes next) (stopped : thread.IsStopped) :
    next.phase.rest ≤ thread.phase.rest := by
  cases passes with
  | same | disconnected => exact Nat.le_refl _
  | sent => exact Nat.le_of_eq (congrArg Phase.rest (send_phase thread))
  | moved moves => exact Nat.le_of_lt (moves.rest_lt stopped).2

end Thread

namespace Clock

variable {clock next : Clock} {action : Clock.Action}

section Moves

/-- The thread that the clock holds. -/
def held? (clock : Clock) : Option Thread :=
  clock.handle?.bind fun position => clock.threads[position]?

theorem held?_of_handle {position : Nat} (handle : clock.handle? = some position) :
    clock.held? = clock.threads[position]? := by
  rw [held?, handle]
  rfl

/-- The held thread is given up, and reported if it did not end well. -/
def joined (clock : Clock) : Clock :=
  { clock with handle? := none, log := clock.log ++ (clock.held?.map Thread.records).getD [] }

/-- All that one action of the owner or of a thread can do. -/
inductive Moves (clock : Clock) : Clock.Action → Clock → Prop where
  | calls {purpose : Purpose} : clock.owner = .free →
      Moves clock (.call purpose) { clock with owner := .called purpose }
  | passes {purpose : Purpose} : clock.owner = .called purpose → clock.sender? = none →
      Moves clock .proceed { clock with owner := .joining purpose }
  | sends {purpose : Purpose} {channel : Nat} : clock.owner = .called purpose →
      clock.sender? = some channel →
        Moves clock .proceed { clock with
          threads := clock.threads.modify channel Thread.send
          sender? := none
          owner := .sent channel purpose }
  | drops {purpose : Purpose} {channel : Nat} : clock.owner = .sent channel purpose →
      Moves clock .proceed { clock with
        threads := clock.threads.modify channel Thread.disconnect
        owner := .joining purpose }
  | returns {purpose : Purpose} : clock.owner = .joining purpose →
      (∀ thread, clock.held? = some thread → thread.phase = .finished) →
        Moves clock .proceed (clock.joined.complete purpose)
  | acts {position : Nat} {thread moved : Thread} : clock.threads[position]? = some thread →
      thread.Moves moved →
        Moves clock (.thread position) { clock with threads := clock.threads.set position moved }

theorem moves_of_proceed? (proceeded : clock.proceed? = some next) : clock.Moves .proceed next := by
  unfold proceed? at proceeded
  split at proceeded
  case h_1 | h_2 => cases proceeded
  case h_3 purpose owner =>
    split at proceeded
    case h_1 sender =>
      cases proceeded
      exact .passes owner sender
    case h_2 channel sender =>
      cases proceeded
      exact .sends owner sender
  case h_4 channel purpose owner =>
    cases proceeded
    exact .drops owner
  case h_5 purpose owner =>
    unfold join? at proceeded
    split at proceeded
    case h_1 handle =>
      have held : clock.held? = none := by rw [held?, handle]; rfl
      have joined : clock.joined = clock := by
        rw [Clock.joined, held, ← handle]
        simp
      cases proceeded
      have moves : clock.Moves .proceed (clock.joined.complete purpose) :=
        .returns owner fun thread found => by
          rw [held] at found
          cases found
      rwa [joined] at moves
    case h_2 position handle =>
      split at proceeded
      case h_1 => cases proceeded
      case h_2 thread found =>
        have held : clock.held? = some thread := (held?_of_handle handle).trans found
        split at proceeded
        case isTrue finished =>
          cases proceeded
          have moves : clock.Moves .proceed (clock.joined.complete purpose) :=
            .returns owner fun other same => by
              cases held.symm.trans same
              exact finished
          rwa [joined, held] at moves
        case isFalse => cases proceeded

theorem moves_of_act? (acted : clock.act? action = some next) : clock.Moves action next := by
  cases action with
  | call purpose =>
      rw [act?, call?] at acted
      split at acted
      case h_1 free =>
        cases acted
        exact .calls free
      case h_2 => cases acted
  | proceed => exact moves_of_proceed? acted
  | thread position =>
      rw [act?, actAt?] at acted
      split at acted
      case h_1 => cases acted
      case h_2 thread found =>
        obtain ⟨moved, possible, rfl⟩ := Option.map_eq_some_iff.mp acted
        exact .acts found (Thread.moves_of_act? possible)

/-- What holds of each possible action holds of each action. -/
theorem act_cases {motive : Clock → Prop} (still : motive clock)
    (moves : ∀ next, clock.Moves action next → motive next) : motive (clock.act action) := by
  rw [act]
  cases acted : clock.act? action with
  | none => exact still
  | some next => exact moves next (moves_of_act? acted)

theorem after_append (clock : Clock) (first second : List Clock.Action) :
    clock.after (first ++ second) = (clock.after first).after second :=
  List.foldl_append

/-- What every possible action keeps is kept by a run. -/
theorem after_cases {motive : Clock → Prop} (start : motive clock) {actions : List Clock.Action}
    (moves : ∀ action ∈ actions, ∀ clock next, clock.Moves action next → motive clock → motive next) :
    motive (clock.after actions) := by
  induction actions generalizing clock with
  | nil => exact start
  | cons action rest inductionHypothesis =>
      refine inductionHypothesis
        (act_cases start fun next step => moves action List.mem_cons_self clock next step start)
        fun other member => moves other (List.mem_cons_of_mem _ member)

end Moves

section Positions

/-- A thread is still there afterwards, at its position. -/
theorem Moves.thread (moves : clock.Moves action next) {position : Nat} {thread : Thread}
    (found : clock.threads[position]? = some thread) :
    ∃ other, next.threads[position]? = some other ∧ thread.Passes other := by
  cases moves with
  | calls | passes => exact ⟨thread, found, .same⟩
  | sends =>
      simp only [List.getElem?_modify, found]
      split
      · exact ⟨_, rfl, .sent⟩
      · exact ⟨_, rfl, .same⟩
  | drops =>
      simp only [List.getElem?_modify, found]
      split
      · exact ⟨_, rfl, .disconnected⟩
      · exact ⟨_, rfl, .same⟩
  | @returns purpose =>
      refine ⟨thread, ?_, .same⟩
      cases purpose with
      | stop | drop => exact found
      | start callback =>
          have below := (List.getElem?_eq_some_iff.mp found).1
          exact (List.getElem?_append_left below).trans found
  | @acts place former moved present step =>
      by_cases here : place = position
      · subst here
        cases present.symm.trans found
        have below := (List.getElem?_eq_some_iff.mp found).1
        exact ⟨moved, List.getElem?_set_self below, .moved step⟩
      · exact ⟨thread, (List.getElem?_set_ne here).trans found, .same⟩

/-- A call that starts a callback adds one thread, and nothing else does. -/
theorem Moves.length (moves : clock.Moves action next) :
    next.threads.length = clock.threads.length ∨
      ∃ callback, clock.owner = .joining (.start callback) ∧
        next = clock.joined.complete (.start callback) := by
  cases moves with
  | calls | passes => exact .inl rfl
  | sends | drops => exact .inl (List.length_modify _ _ _)
  | @returns purpose owner =>
      cases purpose with
      | stop | drop => exact .inl rfl
      | start callback => exact .inr ⟨callback, owner, rfl⟩
  | acts => exact .inl List.length_set

theorem length_started (clock : Clock) (callback : Callback) :
    (clock.joined.complete (.start callback)).threads.length = clock.threads.length + 1 :=
  List.length_append

/-- A thread was there before, or it is the one that was started. -/
theorem Moves.origin (moves : clock.Moves action next) {position : Nat} {other : Thread}
    (found : next.threads[position]? = some other) :
    (∃ thread, clock.threads[position]? = some thread ∧ thread.Passes other) ∨
      ∃ callback, next = clock.joined.complete (.start callback) ∧
        position = clock.threads.length ∧ other = { callback := callback } := by
  have below := (List.getElem?_eq_some_iff.mp found).1
  by_cases old : position < clock.threads.length
  · obtain ⟨same, present, passes⟩ := moves.thread (List.getElem?_eq_getElem old)
    cases present.symm.trans found
    exact .inl ⟨_, List.getElem?_eq_getElem old, passes⟩
  · rcases moves.length with same | ⟨callback, -, rfl⟩
    · omega
    · have longer := clock.length_started callback
      have last : position = clock.threads.length := by omega
      subst last
      have fresh : (clock.joined.complete (.start callback)).threads[clock.threads.length]? =
          some { callback := callback } := List.getElem?_concat_length
      exact .inr ⟨callback, rfl, rfl, Option.some.inj (found.symm.trans fresh)⟩

end Positions

section Sound

/-- The owner holds the sending end of the latest thread, until it has told that thread to end. -/
def Ends (clock : Clock) : Prop :=
  match clock.owner with
  | .free | .called _ => clock.sender? = clock.handle?
  | .sent channel _ =>
      clock.sender? = none ∧ clock.handle? = some channel ∧
        ∀ thread, clock.held? = some thread → thread.IsStopped
  | .joining _ =>
      clock.sender? = none ∧ ∀ thread, clock.held? = some thread → thread.IsStopped
  | .gone => clock.sender? = none ∧ clock.handle? = none

/-- The clock holds its latest thread or none, and all other threads have finished. -/
structure Sound (clock : Clock) : Prop where
  regular : ∀ thread ∈ clock.threads, thread.Regular
  latest {position : Nat} : clock.handle? = some position → position + 1 = clock.threads.length
  others {position : Nat} {thread : Thread} : clock.threads[position]? = some thread →
    clock.handle? ≠ some position → thread.phase = .finished
  ends : clock.Ends

theorem sound_empty : Sound {} where
  regular _ member := by cases member
  latest handle := by cases handle
  others found := by cases found
  ends := rfl

/-- When the held thread has finished, all have. -/
theorem Sound.finished (sound : clock.Sound)
    (held : ∀ thread, clock.held? = some thread → thread.phase = .finished) :
    ∀ thread ∈ clock.threads, thread.phase = .finished := by
  intro thread member
  obtain ⟨position, found⟩ := List.mem_iff_getElem?.mp member
  by_cases handle : clock.handle? = some position
  · exact held thread ((held?_of_handle handle).trans found)
  · exact sound.others found handle

/-- The held thread is the one that was held before, if the clock holds the same position. -/
theorem Moves.held (moves : clock.Moves action next) (sound : clock.Sound)
    (same : next.handle? = clock.handle?) {other : Thread} (held : next.held? = some other) :
    ∃ thread, clock.held? = some thread ∧ thread.Passes other := by
  obtain ⟨position, handle, found⟩ := Option.bind_eq_some_iff.mp held
  rw [same] at handle
  have below : position < clock.threads.length := by have := sound.latest handle; omega
  have present : clock.threads[position]? = some clock.threads[position] :=
    List.getElem?_eq_getElem below
  obtain ⟨after, presentAfter, passes⟩ := moves.thread present
  cases presentAfter.symm.trans found
  exact ⟨_, (held?_of_handle handle).trans present, passes⟩

/-- Only the held thread can act. -/
theorem Sound.acts_held (sound : clock.Sound) {position : Nat} {thread moved : Thread}
    (found : clock.threads[position]? = some thread) (moves : thread.Moves moved) :
    clock.handle? = some position := by
  by_contra other
  exact moves.unfinished (sound.others found other)

theorem Moves.regular (moves : clock.Moves action next) (sound : clock.Sound) :
    ∀ thread ∈ next.threads, thread.Regular := by
  intro other member
  obtain ⟨position, found⟩ := List.mem_iff_getElem?.mp member
  rcases moves.origin found with ⟨thread, present, passes⟩ | ⟨callback, -, -, rfl⟩
  · exact passes.regular (sound.regular thread (List.mem_of_getElem? present))
  · exact fun call below => absurd below (Nat.not_lt_zero call)

/-- An action that leaves the handle keeps what is said about it. -/
theorem Moves.sound_of_handle (moves : clock.Moves action next) (sound : clock.Sound)
    (handle : next.handle? = clock.handle?) (length : next.threads.length = clock.threads.length)
    (ends : next.Ends) : next.Sound where
  regular := moves.regular sound
  latest position := by rw [length]; exact sound.latest (handle ▸ position)
  others {position other} found apart := by
    rcases moves.origin found with ⟨thread, present, passes⟩ | ⟨callback, rfl, last, -⟩
    · exact passes.finished (sound.others present (handle ▸ apart))
    · have longer := clock.length_started callback
      omega
  ends := ends

/-- With all threads finished there is nothing to hold. -/
theorem sound_of_finished (regular : ∀ thread ∈ clock.threads, thread.Regular)
    (finished : ∀ thread ∈ clock.threads, thread.phase = .finished) (handle : clock.handle? = none)
    (ends : clock.Ends) : clock.Sound where
  regular := regular
  latest held := by cases handle.symm.trans held
  others found _ := finished _ (List.mem_of_getElem? found)
  ends := ends

theorem Moves.sound (moves : clock.Moves action next) (sound : clock.Sound) : next.Sound := by
  have ends := sound.ends
  have stopped (same : next.handle? = clock.handle?)
      (before : ∀ thread, clock.held? = some thread → thread.IsStopped) {other : Thread}
      (held : next.held? = some other) : other.IsStopped := by
    obtain ⟨thread, found, passes⟩ := moves.held sound same held
    exact passes.stopped (before thread found)
  have kept := moves.sound_of_handle sound
  have regular := moves.regular sound
  have origin {position : Nat} {other : Thread} (found : next.threads[position]? = some other) :=
    moves.origin found
  unfold Ends at ends
  cases moves with
  | calls free =>
      rw [free] at ends
      exact kept rfl rfl ends
  | passes called unsent =>
      rw [called] at ends
      refine kept rfl rfl ⟨unsent, fun thread held => ?_⟩
      obtain ⟨position, handle, -⟩ := Option.bind_eq_some_iff.mp held
      cases (ends.symm.trans unsent).symm.trans handle
  | @sends _ channel called sender =>
      rw [called] at ends
      have handle : clock.handle? = some channel := ends.symm.trans sender
      refine kept rfl (List.length_modify _ _ _) ⟨rfl, handle, fun thread held => ?_⟩
      obtain ⟨position, same, found⟩ := Option.bind_eq_some_iff.mp held
      cases handle.symm.trans same
      rw [List.getElem?_modify_eq] at found
      obtain ⟨former, -, rfl⟩ := Option.map_eq_some_iff.mp found
      exact former.send_stopped
  | drops sent =>
      rw [sent] at ends
      obtain ⟨unsent, -, told⟩ := ends
      exact kept rfl (List.length_modify _ _ _) ⟨unsent, fun thread held => stopped rfl told held⟩
  | @returns purpose joining held =>
      rw [joining] at ends
      have finished := sound.finished held
      cases purpose with
      | stop => exact sound_of_finished sound.regular finished rfl ends.1
      | drop => exact sound_of_finished sound.regular finished rfl ⟨ends.1, rfl⟩
      | start callback =>
          exact
            { regular := regular
              latest := fun held => by
                cases held
                exact (clock.length_started callback).symm
              others := fun found apart => by
                rcases origin found with ⟨thread, present, passes⟩ | ⟨_, -, rfl, -⟩
                · exact passes.finished (finished thread (List.mem_of_getElem? present))
                · exact absurd rfl apart
              ends := rfl }
  | acts found step =>
      refine kept rfl List.length_set ?_
      unfold Ends
      cases owner : clock.owner with
      | free | called | gone =>
          rw [owner] at ends
          exact ends
      | sent channel purpose =>
          rw [owner] at ends
          exact ⟨ends.1, ends.2.1, fun thread held => stopped rfl ends.2.2 held⟩
      | joining purpose =>
          rw [owner] at ends
          exact ⟨ends.1, fun thread held => stopped rfl ends.2 held⟩

/-- Owner and threads keep to their parts in every interleaving. -/
theorem Sound.after (sound : clock.Sound) (actions : List Clock.Action) : (clock.after actions).Sound :=
  after_cases sound fun _ _ _ _ moves sound => moves.sound sound

end Sound

end Clock
end ChipEight
