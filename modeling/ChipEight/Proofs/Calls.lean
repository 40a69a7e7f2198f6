/-
This file shows that every return leads behind its own call.
-/
import Mathlib.Data.List.Induction
import Mathlib.Data.List.Infix
import ChipEight.Proofs.Turn

namespace ChipEight

namespace Turn

section Brackets

def isCall (turn : Turn) : Bool :=
  match turn.instruction with
  | .call _ => true
  | _ => false

def isReturn (turn : Turn) : Bool :=
  match turn.instruction with
  | .leave => true
  | _ => false

/-- No part from the start on has more returns than calls, and all turns have as many. -/
structure Balanced (turns : List Turn) : Prop where
  nested : ∀ first, first <+: turns → first.countP isReturn ≤ first.countP isCall
  closed : turns.countP isReturn = turns.countP isCall

instance (turns : List Turn) : Decidable (Balanced turns) :=
  decidable_of_iff
    ((∀ first ∈ turns.inits, first.countP isReturn ≤ first.countP isCall) ∧
      turns.countP isReturn = turns.countP isCall)
    ⟨fun ⟨nested, closed⟩ => ⟨fun first part => nested first ((List.mem_inits _ _).mpr part), closed⟩,
      fun ⟨nested, closed⟩ => ⟨fun first part => nested first ((List.mem_inits _ _).mp part), closed⟩⟩

/-- A call among the earlier turns is matched by the next return if all turns since are balanced. -/
def Matched (earlier : List Turn) (call : Turn) : Prop :=
  ∃ outer inner, earlier = outer ++ call :: inner ∧ call.isCall ∧ Balanced inner

theorem kinds (turn : Turn) :
    (turn.isCall = true ∧ turn.isReturn = false) ∨ (turn.isCall = false ∧ turn.isReturn = true) ∨
      (turn.isCall = false ∧ turn.isReturn = false) := by
  unfold isCall isReturn
  cases turn.instruction <;> simp

end Brackets

section Pending

/-- A call is opened, and a return closes the innermost call. -/
def track (opened : List Turn) (turn : Turn) : List Turn :=
  if turn.isCall then turn :: opened else if turn.isReturn then opened.tail else opened

/-- The calls that are still open, the innermost call first. -/
def pending (opened turns : List Turn) : List Turn := turns.foldl track opened

/-- There are never more returns than open calls, if so many calls are open at the start. -/
def Nested (opened : Nat) (turns : List Turn) : Prop :=
  ∀ first, first <+: turns → first.countP isReturn ≤ opened + first.countP isCall

variable {opened : List Turn} {turn : Turn} {turns : List Turn} {count : Nat}

theorem Balanced.toNested (balanced : Balanced turns) : Nested 0 turns := by
  intro first part
  simpa using balanced.nested first part

theorem Nested.of_prefix (nested : Nested count turns) {first : List Turn}
    (part : first <+: turns) : Nested count first :=
  fun shorter inside => nested shorter (inside.trans part)

/-- The turns after the first one are nested in the calls that it leaves open. -/
theorem Nested.tail (nested : Nested opened.length (turn :: turns)) :
    (turn.isReturn = true → opened ≠ []) ∧ Nested (track opened turn).length turns := by
  have head := nested [turn] (by simp)
  constructor
  · rintro returns rfl
    obtain ⟨calls, other⟩ | ⟨calls, -⟩ | ⟨-, other⟩ := turn.kinds
    · simp [returns] at other
    · simp [calls, returns] at head
    · simp [returns] at other
  · intro first part
    have longer := nested (turn :: first) (List.cons_prefix_cons.mpr ⟨rfl, part⟩)
    obtain ⟨calls, returns⟩ | ⟨calls, returns⟩ | ⟨calls, returns⟩ := turn.kinds <;>
      simp [track, calls, returns] at head longer ⊢ <;> omega

/-- One turn changes only the innermost calls, unless it returns from none. -/
theorem track_append (room : turn.isReturn = true → opened ≠ []) (outer : List Turn) :
    track (opened ++ outer) turn = track opened turn ++ outer ∧
      (track opened turn).length + [turn].countP isReturn =
        opened.length + [turn].countP isCall := by
  obtain ⟨calls, returns⟩ | ⟨calls, returns⟩ | ⟨calls, returns⟩ := turn.kinds
  · simp [track, calls, returns]
  · cases opened with
    | nil => exact (room returns rfl).elim
    | cons call rest => simp [track, calls, returns]
  · simp [track, calls, returns]

/-- The calls that were open before stay below the pending ones, and the number of pending calls is
known. -/
theorem pending_append (opened : List Turn) (nested : Nested opened.length turns)
    (outer : List Turn) :
    pending (opened ++ outer) turns = pending opened turns ++ outer ∧
      (pending opened turns).length + turns.countP isReturn =
        opened.length + turns.countP isCall := by
  induction turns generalizing opened with
  | nil => simp [pending]
  | cons turn rest inductionHypothesis =>
      obtain ⟨room, others⟩ := nested.tail
      obtain ⟨kept, counted⟩ := track_append room outer
      obtain ⟨keptRest, countedRest⟩ := inductionHypothesis _ others
      constructor
      · simp only [pending, List.foldl_cons] at keptRest ⊢
        rw [kept, keptRest]
      · rw [← List.singleton_append, List.countP_append, List.countP_append]
        simp only [pending, List.singleton_append, List.foldl_cons] at countedRest ⊢
        omega

/-- Balanced turns close all calls that they open. -/
theorem Balanced.pending (balanced : Balanced turns) (outer : List Turn) :
    pending outer turns = outer := by
  obtain ⟨kept, counted⟩ := pending_append [] balanced.toNested outer
  have none : Turn.pending [] turns = [] := by
    rw [← List.length_eq_zero_iff]
    have closed := balanced.closed
    simp only [List.length_nil] at counted
    omega
  rw [List.nil_append, none] at kept
  exact kept

theorem pending_concat : pending opened (turns ++ [turn]) = track (pending opened turns) turn := by
  simp [pending]

/-- One more turn stays nested unless it returns from none. -/
theorem Nested.concat (nested : Nested 0 turns)
    (room : turn.isReturn = true → pending [] turns ≠ []) : Nested 0 (turns ++ [turn]) := by
  obtain ⟨-, counted⟩ := pending_append [] nested []
  obtain ⟨-, last⟩ := track_append room []
  intro first part
  obtain rfl | part := List.prefix_concat_iff.mp part
  · rw [List.countP_append, List.countP_append]
    simp only [List.length_nil] at counted
    omega
  · exact nested first part

/-- Each pending call stands among the turns, and the calls above it were opened after it. -/
theorem pending_split (nested : Nested 0 turns) (inner outer : List Turn) (call : Turn)
    (shape : pending [] turns = inner ++ call :: outer) :
    ∃ earlier later, turns = earlier ++ call :: later ∧ call.isCall ∧ Nested 0 later ∧
      pending [] later = inner := by
  induction turns using List.reverseRecOn generalizing inner with
  | nil => simp [pending] at shape
  | append_singleton turns turn inductionHypothesis =>
      have before := inductionHypothesis (nested.of_prefix (List.prefix_append turns [turn]))
      -- The last turn comes after the call and changes only the calls above it.
      have extend (above : List Turn) (shape : pending [] turns = above ++ call :: outer)
          (room : turn.isReturn = true → above ≠ []) (tracked : track above turn = inner) :
          ∃ earlier later, turns ++ [turn] = earlier ++ call :: later ∧ call.isCall ∧
            Nested 0 later ∧ pending [] later = inner := by
        obtain ⟨earlier, later, rfl, calls, nestedLater, same⟩ := before above shape
        subst same
        refine ⟨earlier, later ++ [turn], by simp, calls, nestedLater.concat room, ?_⟩
        rw [pending_concat, tracked]
      rw [pending_concat] at shape
      obtain ⟨calls, returns⟩ | ⟨calls, returns⟩ | ⟨calls, returns⟩ := turn.kinds
      · simp only [track, calls, if_true] at shape
        cases inner with
        | nil =>
            obtain ⟨rfl, -⟩ := List.cons.inj shape
            exact ⟨turns, [], rfl, calls, by simp [Nested], rfl⟩
        | cons head above =>
            obtain ⟨rfl, below⟩ := List.cons.inj shape
            exact extend above below (by simp [returns]) (by simp [track, calls])
      · simp only [track, calls, returns, Bool.false_eq_true, if_false, if_true] at shape
        cases below : pending [] turns with
        | nil => simp [below] at shape
        | cons head rest =>
            rw [below, List.tail_cons] at shape
            exact extend (head :: inner) (by rw [below, shape]; rfl) (by simp)
              (by simp [track, calls, returns])
      · simp only [track, calls, returns, Bool.false_eq_true, if_false] at shape
        exact extend inner shape (by simp [returns]) (by simp [track, calls, returns])

/-- The innermost pending call is the only one that the next return matches. -/
theorem matched_iff (nested : Nested 0 turns) (call : Turn) :
    Matched turns call ↔ (pending [] turns).head? = some call := by
  constructor
  · rintro ⟨outer, inner, rfl, calls, balanced⟩
    have shape : pending [] (outer ++ call :: inner) = call :: pending [] outer := by
      rw [pending, List.foldl_append, List.foldl_cons, track, if_pos calls]
      exact balanced.pending _
    rw [shape, List.head?_cons]
  · intro top
    obtain ⟨outer, shape⟩ := List.head?_eq_some_iff.mp top
    obtain ⟨earlier, later, rfl, calls, nestedLater, none⟩ :=
      pending_split nested [] outer call shape
    obtain ⟨-, counted⟩ := pending_append [] nestedLater []
    refine ⟨earlier, later, rfl, calls, ⟨?_, ?_⟩⟩
    · intro first part
      simpa using nestedLater first part
    · simp only [none, List.length_nil] at counted
      omega

end Pending

section Stack

/-- A call keeps its address on the stack, and a return takes the innermost address away and goes on
behind it. -/
theorem stack_cases (turn : Turn) :
    (turn.isCall = true ∧ turn.isReturn = false ∧
      turn.after.stack.calls = turn.before.counter :: turn.before.stack.calls) ∨
    (turn.isCall = false ∧ turn.isReturn = true ∧
      ∃ caller, turn.before.stack.calls = caller :: turn.after.stack.calls ∧
        turn.after.counter = caller + Advance.wordSize) ∨
    (turn.isCall = false ∧ turn.isReturn = false ∧
      turn.after.stack.calls = turn.before.stack.calls) := by
  have calls := turn.moved.calls
  unfold isCall isReturn
  cases shape : turn.instruction with
  | call target =>
      rw [shape] at calls
      exact .inl ⟨rfl, rfl, calls⟩
  | leave => exact .inr (.inl ⟨rfl, rfl, turn.leave_shape shape⟩)
  | _ =>
      rw [shape] at calls
      exact .inr (.inr ⟨rfl, rfl, calls⟩)

theorem after_length (turn : Turn) :
    turn.after.stack.calls.length + [turn].countP isReturn =
      turn.before.stack.calls.length + [turn].countP isCall := by
  obtain ⟨calls, returns, pushed⟩ | ⟨calls, returns, caller, popped, -⟩ | ⟨calls, returns, same⟩ :=
    turn.stack_cases
  · simp [calls, returns, pushed]
  · simp [calls, returns, popped]
  · simp [calls, returns, same]

/-- The addresses of the open calls go along with the open calls. -/
def addresses (opened : List Turn) : List Word := opened.map fun call => call.before.counter

theorem after_tracked {turn : Turn} {opened : List Turn} {base : List Word}
    (room : turn.isReturn = true → opened ≠ [])
    (shape : turn.before.stack.calls = addresses opened ++ base) :
    turn.after.stack.calls = addresses (track opened turn) ++ base := by
  obtain ⟨calls, returns, pushed⟩ | ⟨calls, returns, caller, popped, -⟩ | ⟨calls, returns, same⟩ :=
    turn.stack_cases
  · simp [pushed, shape, track, calls, addresses]
  · cases opened with
    | nil => exact (room returns rfl).elim
    | cons call rest =>
        rw [popped, addresses, List.map_cons, List.cons_append] at shape
        simp [track, calls, returns, (List.cons.inj shape).2, addresses]
  · simp [same, shape, track, calls, returns]

end Stack

end Turn

namespace Machine

section Run

variable {machine : Machine}

/-- The stack holds the addresses of the pending calls above what was there at the start. -/
theorem after_pending (opened : List Turn) (base : List Word) (operations : List Operation)
    (play : ∀ operation ∈ operations, operation.isPlay)
    (nested : Turn.Nested opened.length (machine.turns operations))
    (shape : machine.stack.calls = Turn.addresses opened ++ base) :
    (machine.after operations).stack.calls =
      Turn.addresses (Turn.pending opened (machine.turns operations)) ++ base := by
  induction operations generalizing machine opened with
  | nil => exact shape
  | cons operation rest inductionHypothesis =>
      rw [List.forall_mem_cons] at play
      rw [turns] at nested ⊢
      obtain ⟨none, still⟩ | ⟨turn, dirty, taken, rfl, after⟩ := machine.apply_turn operation play.1
      · rw [none] at nested ⊢
        rw [← still.stack] at shape
        exact inductionHypothesis _ play.2 nested shape
      · rw [taken, Option.toList_some, List.singleton_append] at nested ⊢
        obtain ⟨room, others⟩ := nested.tail
        have next := Turn.after_tracked room shape
        have same : (turn.before.apply operation).machine.stack = turn.after.stack := by rw [after]
        rw [← same] at next
        exact inductionHypothesis _ play.2 others next

/-- The depth of the stack counts the calls that have not returned. -/
theorem after_depth (operations : List Operation)
    (play : ∀ operation ∈ operations, operation.isPlay) :
    (machine.after operations).stack.calls.length +
        (machine.turns operations).countP Turn.isReturn =
      machine.stack.calls.length + (machine.turns operations).countP Turn.isCall := by
  induction operations generalizing machine with
  | nil => rfl
  | cons operation rest inductionHypothesis =>
      rw [List.forall_mem_cons] at play
      have others := @inductionHypothesis (machine.apply operation).machine play.2
      rw [turns, after_cons]
      obtain ⟨none, still⟩ | ⟨turn, dirty, taken, rfl, after⟩ := machine.apply_turn operation play.1
      · rw [still.stack] at others
        rw [none]
        exact others
      · have same : (turn.before.apply operation).machine.stack = turn.after.stack := by rw [after]
        rw [same] at others
        have counted := turn.after_length
        rw [taken, Option.toList_some, List.countP_append, List.countP_append]
        omega

end Run

section Discipline

/-- Between balanced calls and returns the calls at the start stay, and every return goes on behind
the call that it matches. -/
structure Bracketed (start : Machine) (operations : List Operation) : Prop where
  stack : (start.after operations).stack = start.stack
  kept : ∀ first, first <+: operations →
    start.stack.calls <:+ (start.after first).stack.calls
  matched (earlier later : List Turn) (turn : Turn)
    (shape : start.turns operations = earlier ++ turn :: later) (returns : turn.isReturn) :
    ∃ call, Turn.Matched earlier call
  behind (earlier later : List Turn) (turn call : Turn)
    (shape : start.turns operations = earlier ++ turn :: later) (returns : turn.isReturn)
    (matched : Turn.Matched earlier call) :
    turn.after.counter.toNat = call.before.counter.toNat + 2

/-- The depth of the stack follows the calls and returns, and bounds them. -/
structure Deep (start : Machine) (operations : List Operation) : Prop where
  depth : (start.after operations).stack.calls.length +
      (start.turns operations).countP Turn.isReturn =
    start.stack.calls.length + (start.turns operations).countP Turn.isCall
  room : (start.after operations).stack.calls.length ≤ 16
  full (target : Word) (next : (start.after operations).instruction? = some (.call target)) :
    (∃ fault, (start.after operations).step.result = .error fault) ↔
      (start.after operations).stack.calls.length = 16
  empty (next : (start.after operations).instruction? = some .leave) :
    (∃ fault, (start.after operations).step.result = .error fault) ↔
      (start.after operations).stack.calls.length = 0

variable {start : Machine} {operations : List Operation}

/-- A return takes the address of the innermost pending call. -/
theorem return_behind {earlier later : List Turn} {turn : Turn}
    (play : ∀ operation ∈ operations, operation.isPlay)
    (nested : Turn.Nested 0 (start.turns operations))
    (shape : start.turns operations = earlier ++ turn :: later) (returns : turn.isReturn) :
    Turn.Nested 0 earlier ∧ ∃ call, (Turn.pending [] earlier).head? = some call ∧
      turn.after.counter.toNat = call.before.counter.toNat + 2 := by
  have upTo : Turn.Nested 0 (earlier ++ [turn]) := nested.of_prefix ⟨later, by simp [shape]⟩
  have nestedEarlier := upTo.of_prefix (List.prefix_append earlier [turn])
  obtain ⟨first, second, rfl, rfl, before⟩ := start.turns_split operations earlier later turn shape
  rw [List.forall_mem_append] at play
  have stack := after_pending [] start.stack.calls first play.1 nestedEarlier rfl
  rw [← before] at stack
  obtain ⟨-, counted⟩ := Turn.pending_append [] nestedEarlier []
  have room := upTo _ List.prefix_rfl
  obtain ⟨_, other, _⟩ | ⟨calls, _, caller, popped, counter⟩ | ⟨_, other, _⟩ := turn.stack_cases
  · simp [returns] at other
  · refine ⟨nestedEarlier, ?_⟩
    cases waiting : Turn.pending [] (start.turns first) with
    | nil =>
        simp [waiting, calls, returns] at room counted
        omega
    | cons call outer =>
        have inside := call.inside
        rw [waiting, popped, Turn.addresses, List.map_cons, List.cons_append] at stack
        refine ⟨call, rfl, ?_⟩
        rw [counter, (List.cons.inj stack).1, UInt16.toNat_add]
        change (call.before.counter.toNat + 2) % 65536 = _
        omega
  · simp [returns] at other

theorem bracketed_of_balanced (play : ∀ operation ∈ operations, operation.isPlay)
    (balanced : Turn.Balanced (start.turns operations)) : Bracketed start operations := by
  have nested := balanced.toNested
  have reached (first : List Operation) (part : first <+: operations) :
      (start.after first).stack.calls =
        Turn.addresses (Turn.pending [] (start.turns first)) ++ start.stack.calls := by
    obtain ⟨second, rfl⟩ := part
    rw [turns_append] at nested
    rw [List.forall_mem_append] at play
    exact after_pending [] start.stack.calls first play.1
      (nested.of_prefix (List.prefix_append _ _)) rfl
  refine ⟨?_, ?_, ?_, ?_⟩
  · have whole := reached operations List.prefix_rfl
    rw [balanced.pending] at whole
    exact CallStack.eq_of_calls whole
  · intro first part
    exact ⟨_, (reached first part).symm⟩
  · intro earlier later turn shape returns
    obtain ⟨inside, call, top, -⟩ := return_behind play nested shape returns
    exact ⟨call, (Turn.matched_iff inside call).mpr top⟩
  · intro earlier later turn call shape returns matched
    obtain ⟨inside, other, top, counter⟩ := return_behind play nested shape returns
    rw [(Turn.matched_iff inside call).mp matched] at top
    obtain rfl := Option.some.inj top
    exact counter

theorem step_fails_iff {instruction : Instruction} (next : start.instruction? = some instruction) :
    (∃ fault, start.step.result = .error fault) ↔ (start.performFault? instruction).isSome := by
  simp only [step_error_iff, stepFault?_instruction _ next, Option.isSome_iff_exists]

theorem deep (play : ∀ operation ∈ operations, operation.isPlay) : Deep start operations where
  depth := after_depth operations play
  room := (start.after operations).stack.bounded
  full := by
    intro target next
    rw [step_fails_iff next, performFault?]
    change _ ↔ _ = CallStack.capacity
    split <;> simp [*]
  empty := by
    intro next
    rw [step_fails_iff next, performFault?, List.length_eq_zero_iff]
    split <;> simp [*]

/-- The stack follows the calls and returns of every play, and balanced ones leave it alone. -/
theorem calls_disciplined (start : Machine) (operations : List Operation)
    (play : ∀ operation ∈ operations, operation.isPlay) :
    Deep start operations ∧
      (Turn.Balanced (start.turns operations) → Bracketed start operations) :=
  ⟨deep play, bracketed_of_balanced play⟩

/-- The program calls a routine that calls another one, and both of them return. -/
theorem calls_disciplined_nested :
    let start := (initial {} (.arithmetic 0 1)).load
      ⟨"", [0x22, 0x04, 0x12, 0x02, 0x22, 0x08, 0x00, 0xEE, 0x00, 0xEE], by decide, by decide⟩
    let operations := [Operation.step, .setKey 3 true, .tick, .step, .step]
    Turn.Balanced (start.turns operations) ∧ Deep start operations ∧
      Bracketed start operations := by
  intro start operations
  have balanced : Turn.Balanced (start.turns operations) := by decide +kernel
  obtain ⟨deep, bracketed⟩ := calls_disciplined start operations (by decide)
  exact ⟨balanced, deep, bracketed balanced⟩

end Discipline

end Machine

end ChipEight
