/-
This file models the clock that calls back once in an interval: an owner who starts and stops it,
and the threads that it starts. Owner and threads act in any order.
-/
import ChipEight.Log

namespace ChipEight

/-- A callback goes on or finishes, or it panics. -/
inductive Verdict where
  | goOn
  | finish
  | panic
  deriving DecidableEq, Repr

instance : Coe Bool Verdict where
  coe goesOn := if goesOn then .goOn else .finish

/-- A callback answers its calls one after another. -/
abbrev Callback := Nat → Verdict

/-- A thread waits for its interval to pass or is inside the callback, until its loop is over. -/
inductive Phase where
  | waiting
  | calling
  | leaving
  /-- The thread is no longer counted, and still has to give back its channel. -/
  | closing
  | finished
  deriving DecidableEq, Repr

def Phase.isCounted : Phase → Bool
  | .waiting | .calling | .leaving => true
  | .closing | .finished => false

/-- A thread holds the receiving end of a channel with room for one message. -/
structure Thread where
  callback : Callback
  /-- The callback has answered this often. -/
  calls : Nat := 0
  phase : Phase := .waiting
  panicked : Bool := false
  /-- The message to end the thread lies in the channel. -/
  message : Bool := false
  /-- The owner still holds the sending end. -/
  connected : Bool := true

namespace Thread

/-- The answer of the callback decides whether the thread waits for the next interval. -/
def answered (thread : Thread) : Thread :=
  match thread.callback thread.calls with
  | .goOn => { thread with calls := thread.calls + 1, phase := .waiting }
  | .finish => { thread with calls := thread.calls + 1, phase := .leaving }
  | .panic => { thread with calls := thread.calls + 1, phase := .leaving, panicked := true }

/-- A waiting thread takes a message, notices a lost sender, or enters its callback when the interval
has passed. -/
def act? (thread : Thread) : Option Thread :=
  match thread.phase with
  | .waiting =>
      if thread.message then some { thread with message := false, phase := .leaving }
      else if thread.connected then some { thread with phase := .calling }
      else some { thread with phase := .leaving }
  | .calling => some thread.answered
  | .leaving => some { thread with phase := .closing }
  | .closing => some { thread with phase := .finished }
  | .finished => none

/-- A message is lost when no thread holds the other end any more. -/
def send (thread : Thread) : Thread :=
  if thread.phase = .finished then thread else { thread with message := true }

def disconnect (thread : Thread) : Thread :=
  { thread with connected := false }

/-- The owner reports a thread that did not end well. -/
def records (thread : Thread) : List Record :=
  if thread.panicked then
    [{ level := .error, target := "chip::timer", message := "The worker thread panicked." }]
  else []

end Thread

/-- All calls of the owner end a running thread first. -/
inductive Purpose where
  | stop
  | start (callback : Callback)
  | drop

/-- The owner is free, or somewhere inside a call, or has given the clock up. -/
inductive Owner where
  | free
  | called (purpose : Purpose)
  /-- The sending end was taken out of the clock, and is still held. -/
  | sent (channel : Nat) (purpose : Purpose)
  | joining (purpose : Purpose)
  | gone

/-- Inside a call the owner remembers what the call was made for. -/
def Owner.purpose? : Owner → Option Purpose
  | .free | .gone => none
  | .called purpose | .sent _ purpose | .joining purpose => some purpose

/-- The clock has the threads that were ever started, the latest last. It holds the latest one and
the sending end of its channel until it stops it. -/
structure Clock where
  threads : List Thread := []
  handle? : Option Nat := none
  sender? : Option Nat := none
  owner : Owner := .free
  log : List Record := []

namespace Clock

/-- An action belongs to the owner or to the thread at a position. -/
inductive Action where
  | call (purpose : Purpose)
  /-- The owner goes on inside its call. -/
  | proceed
  | thread (position : Nat)

/-- The clock is alive while any of its threads is counted. -/
def isAlive (clock : Clock) : Bool :=
  clock.threads.any fun thread => thread.phase.isCounted

def call? (clock : Clock) (purpose : Purpose) : Option Clock :=
  match clock.owner with
  | .free => some { clock with owner := .called purpose }
  | _ => none

/-- With no thread left, the call does what it was made for. -/
def complete (clock : Clock) : Purpose → Clock
  | .stop => { clock with owner := .free }
  | .start callback =>
      { clock with
        threads := clock.threads ++ [{ callback := callback }]
        handle? := some clock.threads.length
        sender? := some clock.threads.length
        owner := .free }
  | .drop => { clock with owner := .gone }

/-- The owner waits for the held thread to finish. -/
def join? (clock : Clock) (purpose : Purpose) : Option Clock :=
  match clock.handle? with
  | none => some (clock.complete purpose)
  | some position =>
      match clock.threads[position]? with
      | none => none
      | some thread =>
          if thread.phase = .finished then
            let joined := { clock with handle? := none, log := clock.log ++ thread.records }
            some (joined.complete purpose)
          else none

/-- The owner sends the message, drops the sending end and joins the thread. -/
def proceed? (clock : Clock) : Option Clock :=
  match clock.owner with
  | .free | .gone => none
  | .called purpose =>
      match clock.sender? with
      | none => some { clock with owner := .joining purpose }
      | some channel =>
          some { clock with
            threads := clock.threads.modify channel Thread.send
            sender? := none
            owner := .sent channel purpose }
  | .sent channel purpose =>
      some { clock with
        threads := clock.threads.modify channel Thread.disconnect
        owner := .joining purpose }
  | .joining purpose => clock.join? purpose

def actAt? (clock : Clock) (position : Nat) : Option Clock :=
  match clock.threads[position]? with
  | none => none
  | some thread =>
      thread.act?.map fun next => { clock with threads := clock.threads.set position next }

/-- An action that is not possible has no result. -/
def act? (clock : Clock) : Action → Option Clock
  | .call purpose => clock.call? purpose
  | .proceed => clock.proceed?
  | .thread position => clock.actAt? position

/-- An action that is not possible is passed over. -/
def act (clock : Clock) (action : Action) : Clock :=
  (clock.act? action).getD clock

def after (clock : Clock) (actions : List Action) : Clock :=
  actions.foldl act clock

/-- The latest thread runs alone for the given count of actions. -/
def watch (clock : Clock) (count : Nat) : Clock :=
  clock.after (List.replicate count (.thread (clock.threads.length - 1)))

def isBusy (clock : Clock) : Bool :=
  clock.owner.purpose?.isSome

/-- While the owner has to wait, the latest thread acts. -/
def turn (clock : Clock) : Clock :=
  clock.proceed?.getD (clock.act (.thread (clock.threads.length - 1)))

/-- The owner goes on until its call returns. -/
def settle : Nat → Clock → Clock
  | 0, clock => clock
  | fuel + 1, clock => if clock.isBusy then settle fuel clock.turn else clock

/-- A call has three steps of the owner, and the held thread has at most four actions left. -/
def make (clock : Clock) (purpose : Purpose) : Clock :=
  settle 7 (clock.act (.call purpose))

def start (clock : Clock) (callback : Callback) : Clock := clock.make (.start callback)

def stop (clock : Clock) : Clock := clock.make .stop

def latestCalls (clock : Clock) : Nat :=
  (clock.threads.getLast?.map Thread.calls).getD 0

/-- The callback counts its calls and goes on below the limit. -/
def countBelow (limit : Nat) : Callback :=
  fun calls => if calls + 1 < limit then .goOn else .finish

/-- A watched run lets its thread act until it ends by itself. -/
def runCounter (clock : Clock) (limit : Nat) : Clock :=
  (clock.start (countBelow limit)).watch (2 * max limit 1 + 2)

end Clock
end ChipEight
