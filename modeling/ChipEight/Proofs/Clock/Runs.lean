/-
This file counts the calls of runs that follow one another on a clock, each watched to its end, and collects
what the clock promises in every interleaving.
-/
import ChipEight.Proofs.Clock.Stopping

namespace ChipEight

namespace Clock

variable {clock last : Clock} {action : Clock.Action} {limit before : Nat} {thread : Thread}

def Action.isThread (position : Nat) : Clock.Action → Bool
  | .thread other => other == position
  | .call _ | .proceed => false

section Counting

/-- The thread that counts up to the limit is the latest one, behind all that were there before. -/
structure Started (limit before : Nat) (thread : Thread) (clock : Clock) : Prop where
  owner : clock.owner = .free
  length : clock.threads.length = before + 1
  found : clock.threads[before]? = some thread
  counts : thread.Counts limit

/-- While nobody calls, each action of the thread brings it one step nearer to its end. -/
theorem Started.act (started : Started limit before thread clock) (uncalled : action.isCall = false) :
    ∃ later, Started limit before later (clock.act action) ∧
      min (thread.acts + (if action.isThread before then 1 else 0)) (2 * max limit 1 + 2) ≤
        later.acts := by
  obtain ⟨owner, length, found, counts⟩ := started
  rw [Clock.act]
  cases acted : clock.act? action with
  | none =>
      refine ⟨thread, ⟨owner, length, found, counts⟩, ?_⟩
      cases action with
      | call | proceed => exact Nat.min_le_left _ _
      | thread position =>
          by_cases here : position = before
          · subst here
            rw [act?, actAt?, found] at acted
            have finished := Thread.act?_eq_none_iff.mp (Option.map_eq_none_iff.mp acted)
            rw [counts.acts_finished finished]
            exact Nat.min_le_right _ _
          · have other : (Action.thread position).isThread before = false := beq_false_of_ne here
            rw [other]
            exact Nat.min_le_left _ _
  | some next =>
      cases moves_of_act? acted with
      | calls => cases uncalled
      | passes other | sends other | drops other | returns other => cases owner.symm.trans other
      | @acts position former moved present step =>
          by_cases here : position = before
          · subst here
            cases present.symm.trans found
            obtain ⟨counting, nearer⟩ := step.counts counts
            have below := (List.getElem?_eq_some_iff.mp found).1
            refine ⟨moved, ⟨owner, List.length_set.trans length,
              List.getElem?_set_self below, counting⟩, ?_⟩
            have own : (Action.thread position).isThread position := beq_self_eq_true position
            rw [own, nearer]
            exact Nat.min_le_left _ _
          · refine ⟨thread, ⟨owner, List.length_set.trans length,
              (List.getElem?_set_ne here).trans found, counts⟩, ?_⟩
            have other : (Action.thread position).isThread before = false := beq_false_of_ne here
            rw [other]
            exact Nat.min_le_left _ _

theorem Started.after (started : Started limit before thread clock) {actions : List Clock.Action}
    (uncalled : ∀ action ∈ actions, action.isCall = false) :
    ∃ later, Started limit before later (clock.after actions) ∧
      min (thread.acts + actions.countP (Action.isThread before)) (2 * max limit 1 + 2) ≤
        later.acts := by
  induction actions generalizing clock thread with
  | nil => exact ⟨thread, started, Nat.min_le_left _ _⟩
  | cons action rest inductionHypothesis =>
      obtain ⟨middle, started, step⟩ := started.act (uncalled action List.mem_cons_self)
      obtain ⟨later, started, steps⟩ := inductionHypothesis started fun other member =>
        uncalled other (List.mem_cons_of_mem _ member)
      refine ⟨later, started, ?_⟩
      rw [List.countP_cons]
      omega

/-- A start leaves a thread that has not acted yet. -/
theorem started_complete (clock : Clock) (limit : Nat) :
    Started limit clock.threads.length { callback := countBelow limit }
      (clock.joined.complete (.start (countBelow limit))) where
  owner := rfl
  length := clock.length_started _
  found := List.getElem?_concat_length
  counts := ⟨rfl, rfl, rfl, Nat.lt_of_lt_of_le Nat.zero_lt_one (Nat.le_max_right limit 1)⟩

/-- When the owner has returned from its start, the thread is there. -/
theorem started_of_returned {actions : List Clock.Action}
    (starting : clock.owner.purpose? = some (.start (countBelow limit)))
    (length : clock.threads.length = before) (uncalled : ∀ action ∈ actions, action.isCall = false)
    (returned : (clock.after actions).isBusy = false) :
    ∃ thread, Started limit before thread (clock.after actions) := by
  -- Until the start completes, only the purpose of the call and the count of threads matter.
  induction actions generalizing clock with
  | nil =>
      change clock.owner.purpose?.isSome = false at returned
      rw [starting] at returned
      cases returned
  | cons action rest inductionHypothesis =>
      obtain ⟨here, others⟩ := List.forall_mem_cons.mp uncalled
      change ((clock.act action).after rest).isBusy = false at returned
      change ∃ thread, Started limit before thread ((clock.act action).after rest)
      revert returned
      refine act_cases (motive := fun next => (next.after rest).isBusy = false →
        ∃ thread, Started limit before thread (next.after rest))
        (inductionHypothesis starting length others) fun next moves returned => ?_
      cases moves with
      | calls => cases here
      | passes called =>
          rw [called] at starting
          exact inductionHypothesis starting length others returned
      | sends called =>
          rw [called] at starting
          exact inductionHypothesis starting ((List.length_modify _ _ _).trans length) others returned
      | drops sent =>
          rw [sent] at starting
          exact inductionHypothesis starting ((List.length_modify _ _ _).trans length) others returned
      | @returns purpose joining =>
          rw [joining] at starting
          cases starting
          obtain ⟨later, started, -⟩ := (started_complete clock limit).after others
          exact ⟨later, length ▸ started⟩
      | acts => exact inductionHypothesis starting (List.length_set.trans length) others returned

theorem started_of_call {actions : List Clock.Action} (free : clock.owner = .free)
    (uncalled : ∀ action ∈ actions, action.isCall = false)
    (returned : (clock.after (.call (.start (countBelow limit)) :: actions)).isBusy = false) :
    ∃ thread, Started limit clock.threads.length thread
      (clock.after (.call (.start (countBelow limit)) :: actions)) := by
  have called : clock.act (.call (.start (countBelow limit))) =
      { clock with owner := .called (.start (countBelow limit)) } := by
    rw [act, act?, call?, free]
    rfl
  rw [after, List.foldl_cons, called] at returned ⊢
  exact started_of_returned rfl rfl uncalled returned

/-- With no thread counted behind the earlier ones, the clock is not alive. -/
theorem Started.not_alive (started : Started limit before thread clock) (sound : clock.Sound)
    (uncounted : thread.phase.isCounted = false) : clock.isAlive = false := by
  rw [isAlive, List.any_eq_false]
  intro other member
  obtain ⟨position, found⟩ := List.mem_iff_getElem?.mp member
  by_cases handle : clock.handle? = some position
  · have last := sound.latest handle
    have length := started.length
    have here : position = before := by omega
    subst here
    cases found.symm.trans started.found
    exact ne_true_of_eq_false uncounted
  · rw [sound.others found handle]
    decide

end Counting

section Runs

/-- A run starts to count on a free clock. It is watched until the clock is not alive any more, in any
interleaving without another call. -/
inductive Watched (clock : Clock) (limit : Nat) : Clock → Prop where
  | run {actions : List Clock.Action} : clock.owner = .free →
      (∀ action ∈ actions, action.isCall = false) →
      (clock.after (.call (.start (countBelow limit)) :: actions)).isBusy = false →
      (clock.after (.call (.start (countBelow limit)) :: actions)).isAlive = false →
        Watched clock limit (clock.after (.call (.start (countBelow limit)) :: actions))

/-- Watched runs follow one another. -/
inductive Runs : Clock → List Nat → Clock → Prop where
  | nil (clock : Clock) : Runs clock [] clock
  | cons {clock watched last : Clock} {limit : Nat} {rest : List Nat} :
      clock.Watched limit watched → Runs watched rest last → Runs clock (limit :: rest) last

/-- A thread whose loop is over makes no more calls, whatever happens. -/
theorem over_after {position : Nat} (found : clock.threads[position]? = some thread)
    (outside : thread.phase.isOver) (actions : List Clock.Action) :
    ∃ later, (clock.after actions).threads[position]? = some later ∧ later.phase.isOver ∧
      later.calls = thread.calls :=
  after_cases (motive := fun clock => ∃ later, clock.threads[position]? = some later ∧
      later.phase.isOver ∧ later.calls = thread.calls) ⟨thread, found, outside, rfl⟩
    fun _ _ _ _ moves ⟨_, found, outside, same⟩ =>
      have ⟨later, foundLater, passes⟩ := moves.thread found
      have ⟨overLater, sameLater⟩ := passes.stays_over outside
      ⟨later, foundLater, overLater, sameLater.trans same⟩

/-- A watched run makes all its calls, and at least one. -/
theorem Watched.started (watched : clock.Watched limit last) :
    ∃ thread, Started limit clock.threads.length thread last ∧ thread.phase.isOver ∧
      thread.calls = max limit 1 := by
  obtain ⟨free, uncalled, returned, dead⟩ := watched
  obtain ⟨thread, started⟩ := started_of_call free uncalled returned
  have uncounted : thread.phase.isCounted = false := by
    rw [isAlive, List.any_eq_false] at dead
    exact eq_false_of_ne_true (dead thread (List.mem_of_getElem? started.found))
  exact ⟨thread, started, started.counts.uncounted uncounted⟩

theorem Watched.sound (watched : clock.Watched limit last) (sound : clock.Sound) : last.Sound := by
  obtain ⟨free, uncalled, returned, dead⟩ := watched
  exact sound.after _

/-- Later runs leave the calls of an earlier thread alone. -/
theorem Runs.stays_over {limits : List Nat} {position : Nat} (runs : Runs clock limits last)
    (found : clock.threads[position]? = some thread) (outside : thread.phase.isOver) :
    ∃ later, last.threads[position]? = some later ∧ later.phase.isOver ∧
      later.calls = thread.calls := by
  induction runs generalizing thread with
  | nil => exact ⟨thread, found, outside, rfl⟩
  | cons watched _ inductionHypothesis =>
      obtain ⟨free, uncalled, returned, dead⟩ := watched
      obtain ⟨middle, found, outside, same⟩ := over_after found outside _
      obtain ⟨later, found, outside, sameLater⟩ := inductionHypothesis found outside
      exact ⟨later, found, outside, sameLater.trans same⟩

/-- Each run makes its own number of calls, independent of the runs before it. -/
theorem Runs.calls {limits : List Nat} (runs : Runs clock limits last) {index : Nat}
    (given : limits[index]? = some limit) :
    ∃ thread, last.threads[clock.threads.length + index]? = some thread ∧
      thread.calls = max limit 1 := by
  induction runs generalizing index with
  | nil => cases given
  | @cons clock watched last first rest run runs inductionHypothesis =>
      obtain ⟨thread, started, outside, calls⟩ := run.started
      cases index with
      | zero =>
          cases given
          obtain ⟨later, foundLater, -, same⟩ := runs.stays_over started.found outside
          exact ⟨later, foundLater, same.trans calls⟩
      | succ index =>
          obtain ⟨later, foundLater, callsLater⟩ := inductionHypothesis given
          rw [started.length, Nat.add_assoc, Nat.add_comm 1] at foundLater
          exact ⟨later, foundLater, callsLater⟩

/-- The last run leaves a clock that is not alive. -/
theorem Runs.not_alive {limits : List Nat} (runs : Runs clock limits last) (some : limits ≠ []) :
    last.isAlive = false := by
  induction runs with
  | nil => exact absurd rfl some
  | @cons _ _ _ _ rest watched runs inductionHypothesis =>
      obtain ⟨-, -, -, dead⟩ := watched
      cases rest with
      | nil =>
          cases runs
          exact dead
      | cons => exact inductionHypothesis (List.cons_ne_nil _ _)

/-- A run is at its end when its thread has acted often enough. -/
theorem watched_of_often {first second : List Clock.Action} (sound : clock.Sound)
    (free : clock.owner = .free) (starting : ∀ action ∈ first, action.isCall = false)
    (running : ∀ action ∈ second, action.isCall = false)
    (returned : (clock.after (.call (.start (countBelow limit)) :: first)).isBusy = false)
    (often : 2 * max limit 1 + 1 ≤ second.countP (Action.isThread clock.threads.length)) :
    clock.Watched limit (clock.after (.call (.start (countBelow limit)) :: (first ++ second))) := by
  obtain ⟨thread, started⟩ := started_of_call free starting returned
  obtain ⟨later, ended, enough⟩ := started.after running
  rw [← after_append, List.cons_append] at ended
  have uncounted : later.phase.isCounted = false := by
    by_contra counted
    have less := ended.counts.acts_lt (eq_true_of_ne_false counted)
    omega
  refine .run free ?_ ?_ (ended.not_alive (sound.after _) uncounted)
  · exact fun action member => (List.mem_append.mp member).elim (starting action) (running action)
  · rw [isBusy, ended.owner]
    rfl

/-- The watcher of a counter lets its thread act until the end. -/
theorem runCounter_watched (sound : clock.Sound) (free : clock.owner = .free) :
    clock.Watched limit (clock.runCounter limit) := by
  have begun := sound.after [.call (.start (countBelow limit))]
  obtain ⟨returned, actions, uncalled, settled⟩ := settle_free begun (remaining_le _)
  have started : clock.start (countBelow limit) =
      clock.after (.call (.start (countBelow limit)) :: actions) := settled
  obtain ⟨thread, latest⟩ := started_of_call free uncalled (settled ▸ returned)
  rw [← started] at latest
  have position : (clock.start (countBelow limit)).threads.length - 1 = clock.threads.length := by
    have length := latest.length
    omega
  let watching := List.replicate (2 * max limit 1 + 2) (Action.thread clock.threads.length)
  have run : clock.runCounter limit =
      clock.after (.call (.start (countBelow limit)) :: (actions ++ watching)) := by
    rw [runCounter, watch, position, started, ← after_append, List.cons_append]
  rw [run]
  refine watched_of_often sound free uncalled (fun action member => ?_) (settled ▸ returned) ?_
  · rw [List.eq_of_mem_replicate member]
    rfl
  · simp [watching, List.countP_replicate, Action.isThread]

/-- Counters can be watched one after another. -/
theorem runs_runCounter (sound : clock.Sound) (free : clock.owner = .free) (limits : List Nat) :
    Runs clock limits (limits.foldl runCounter clock) := by
  induction limits generalizing clock with
  | nil => exact .nil clock
  | cons limit rest inductionHypothesis =>
      have watched : clock.Watched limit (clock.runCounter limit) := runCounter_watched sound free
      obtain ⟨thread, started, -⟩ := watched.started
      exact .cons watched (inductionHypothesis (watched.sound sound) started.owner)

end Runs

section Safety

/-- Some interleaving leads from a new clock to this one. -/
def Reachable (clock : Clock) : Prop :=
  ∃ actions, clock = after {} actions

theorem Reachable.sound (reachable : clock.Reachable) : clock.Sound := by
  obtain ⟨actions, rfl⟩ := reachable
  exact sound_empty.after actions

/-- What a clock promises in every interleaving of its owner and its threads. -/
structure Safe (clock : Clock) : Prop where
  /-- At most one callback is live. -/
  single {position place : Nat} {thread other : Thread} :
    clock.threads[position]? = some thread → clock.threads[place]? = some other →
      thread.phase ≠ .finished → other.phase ≠ .finished → position = place
  /-- A start has joined all earlier callbacks before its own is there. -/
  joined {callback : Callback} {next : Clock} : clock.Returns (.start callback) next →
    (∀ thread ∈ clock.threads, thread.phase = .finished) ∧
      next.threads = clock.threads ++ [{ callback := callback }]
  /-- A callback is not called again behind an answer that is not to go on. -/
  ended {position call : Nat} {thread : Thread} : clock.threads[position]? = some thread →
    call < thread.calls → thread.callback call ≠ .goOn → ∀ later,
      ∃ other, (clock.after later).threads[position]? = some other ∧ other.begun = call + 1
  /-- Nothing happens behind the return of a stop or a drop until the next start. -/
  silent {purpose : Purpose} {next : Clock} : clock.Returns purpose next →
    (∀ callback, purpose ≠ .start callback) → ∀ later,
      (∀ action ∈ later, ∀ callback, action ≠ .call (.start callback)) →
        (next.after later).threads = next.threads ∧ (next.after later).isAlive = false
  /-- A call can always be brought to its return. -/
  returned : ∃ later, (∀ action ∈ later, action.isCall = false) ∧
    (clock.after later).isBusy = false
  /-- Behind the message of a call, whatever acts brings it nearer to its return. -/
  nearer {action : Clock.Action} {next : Clock} : clock.isBusy →
    (∀ purpose, clock.owner ≠ .called purpose) → clock.act? action = some next →
      next.remaining < clock.remaining ∧ clock.remaining ≤ 7
  /-- A run is at its end when its thread has acted often enough. -/
  watched {first second : List Clock.Action} {limit : Nat} : clock.owner = .free →
    (∀ action ∈ first, action.isCall = false) → (∀ action ∈ second, action.isCall = false) →
      (clock.after (.call (.start (countBelow limit)) :: first)).isBusy = false →
        2 * max limit 1 + 1 ≤ second.countP (Action.isThread clock.threads.length) →
          clock.Watched limit
            (clock.after (.call (.start (countBelow limit)) :: (first ++ second)))
  /-- Any counters can be watched one after another. -/
  watchable (limits : List Nat) : clock.owner = .free →
    Runs clock limits (limits.foldl runCounter clock)
  /-- Each of the watched runs makes its own number of calls, and leaves a clock that is not alive. -/
  counted {limits : List Nat} {last : Clock} {index limit : Nat} : Runs clock limits last →
    limits[index]? = some limit → last.isAlive = false ∧
      ∃ thread, last.threads[clock.threads.length + index]? = some thread ∧
        thread.calls = max limit 1

theorem Sound.single (sound : clock.Sound) {position place : Nat} {other : Thread}
    (found : clock.threads[position]? = some thread) (foundOther : clock.threads[place]? = some other)
    (unfinished : thread.phase ≠ .finished) (unfinishedOther : other.phase ≠ .finished) :
    position = place := by
  have held {position : Nat} {thread : Thread} (found : clock.threads[position]? = some thread)
      (unfinished : thread.phase ≠ .finished) : clock.handle? = some position := by
    by_contra other
    exact unfinished (sound.others found other)
  exact Option.some.inj ((held found unfinished).symm.trans (held foundOther unfinishedOther))

/-- At most one callback of a clock is live, a callback that has ended is not called again, a stopped clock
is silent, and watched runs make their own numbers of calls. -/
theorem interleavings_safe {clock : Clock} (reachable : clock.Reachable) : clock.Safe where
  single found foundOther unfinished unfinishedOther :=
    reachable.sound.single found foundOther unfinished unfinishedOther
  joined returns := by
    obtain ⟨-, rfl, held⟩ := returns.cases
    exact ⟨reachable.sound.finished held, rfl⟩
  ended found below stopped later := by
    obtain ⟨last, outside⟩ :=
      reachable.sound.regular _ (List.mem_of_getElem? found) _ below stopped
    obtain ⟨other, foundLater, overLater, same⟩ := over_after found outside later
    exact ⟨other, foundLater, by rw [Thread.begun_of_over overLater, same, last]⟩
  silent returns startless later quiet := by
    obtain ⟨idleLater, same⟩ := (returns.idle reachable.sound startless).after quiet
    exact ⟨same, idleLater.not_alive⟩
  returned := by
    obtain ⟨free, later, uncalled, settled⟩ := settle_free reachable.sound (remaining_le _)
    exact ⟨later, uncalled, settled ▸ free⟩
  nearer busy asked acted :=
    ⟨(moves_of_act? acted).remaining_lt reachable.sound busy (.inr asked), clock.remaining_le⟩
  watched free starting running returned often :=
    watched_of_often reachable.sound free starting running returned often
  watchable limits free := runs_runCounter reachable.sound free limits
  counted runs given := ⟨runs.not_alive fun none => by simp [none] at given, runs.calls given⟩

/-- Two runs follow one another on a new clock, the second one with nothing to count. -/
theorem interleavings_safe_twice :
    Reachable {} ∧ Runs {} [3, 0] ([3, 0].foldl runCounter {}) ∧
      ([3, 0].foldl runCounter {}).threads.map Thread.calls = [3, 1] ∧
        ([3, 0].foldl runCounter {}).isAlive = false := by
  have reachable : Reachable {} := ⟨[], rfl⟩
  have safe := interleavings_safe reachable
  have runs := safe.watchable [3, 0] rfl
  have given : [3, 0][1]? = some 0 := rfl
  exact ⟨reachable, runs, by decide, (safe.counted runs given).1⟩

end Safety

end Clock
end ChipEight
