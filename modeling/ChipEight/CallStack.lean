/-
This file holds the stack of open calls.
-/
import ChipEight.Word

namespace ChipEight

/-- The stack keeps the address of each open call, the innermost call first. -/
structure CallStack where
  calls : List Word
  bounded : calls.length ≤ 16

namespace CallStack

def capacity : Nat := 16

def empty : CallStack := ⟨[], by simp⟩

/-- A call needs room for its address. -/
def push (stack : CallStack) (address : Word) : Except StackFault CallStack :=
  if room : stack.calls.length < 16 then
    .ok ⟨address :: stack.calls, by simp only [List.length_cons]; omega⟩
  else
    .error .full

/-- A return takes the address of the innermost call. -/
def pop (stack : CallStack) : Except StackFault (Word × CallStack) :=
  match nonempty : stack.calls with
  | [] => .error .empty
  | address :: rest =>
      .ok (address, ⟨rest, by have := stack.bounded; simp [nonempty] at this; omega⟩)

theorem eq_of_calls {left right : CallStack} (same : left.calls = right.calls) : left = right := by
  cases left
  cases same
  rfl

/-- A call that succeeds puts its address on top. -/
theorem pushOk (stack pushed : CallStack) (address : Word) :
    stack.push address = .ok pushed ↔ pushed.calls = address :: stack.calls := by
  unfold push
  split
  · cases pushed
    simp [eq_comm]
  · rename_i full
    have bounded := pushed.bounded
    simp only [reduceCtorEq, false_iff]
    intro shape
    simp only [shape, List.length_cons] at bounded
    omega

/-- A return that succeeds takes the top address away. -/
theorem popOk (stack popped : CallStack) (address : Word) :
    stack.pop = .ok (address, popped) ↔ stack.calls = address :: popped.calls := by
  unfold pop
  split
  · rename_i empty
    simp [empty]
  · rename_i top rest shape
    cases popped
    simp [shape]

theorem popPush (stack pushed : CallStack) (address : Word)
    (room : stack.push address = .ok pushed) : pushed.pop = .ok (address, stack) := by
  unfold push at room
  split at room
  · cases room
    rfl
  · cases room

/-- A call fails only for want of room. -/
theorem pushError (stack : CallStack) (address : Word) (fault : StackFault) :
    stack.push address = .error fault ↔ fault = .full ∧ stack.calls.length = capacity := by
  have bounded := stack.bounded
  unfold push capacity
  split
  · simp
    omega
  · simp only [Except.error.injEq, eq_comm, iff_self_and]
    omega

/-- A return fails only for want of a call. -/
theorem popError (stack : CallStack) (fault : StackFault) :
    stack.pop = .error fault ↔ fault = .empty ∧ stack.calls = [] := by
  unfold pop
  split
  · rename_i none
    simp [none, eq_comm]
  · rename_i top rest shape
    simp [shape]

end CallStack
end ChipEight
