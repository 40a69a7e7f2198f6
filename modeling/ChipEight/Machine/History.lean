/-
This file follows a machine through a list of operations.
-/
import ChipEight.Machine.Operation

namespace ChipEight

namespace Operation

/-- Steps and ticks move the machine on. -/
def isStep : Operation → Bool
  | .step | .tick => true
  | _ => false

/-- A play makes steps and ticks, presses keys, takes the display and changes the generator. -/
def isPlay : Operation → Bool
  | .step | .tick | .setKeypad _ | .setKey _ _ | .toggleKey _ | .setGenerator _ | .takeDirty => true
  | _ => false

end Operation

namespace Machine

/-- The operations are applied one after another. -/
def after (machine : Machine) (operations : List Operation) : Machine :=
  operations.foldl (fun machine operation => (machine.apply operation).machine) machine

/-- Each operation has one reply. -/
def replies (machine : Machine) : List Operation → List Reply
  | [] => []
  | operation :: rest =>
      machine.apply operation :: (machine.apply operation).machine.replies rest

def answers (machine : Machine) (operations : List Operation) : List Answer :=
  (machine.replies operations).map Reply.answer

/-- The events keep the order of the operations that cause them. -/
def events (machine : Machine) (operations : List Operation) : List Event :=
  (machine.replies operations).flatMap Reply.events

/-- The log holds the records that its filter lets through. -/
def log (machine : Machine) (filter : Filter) (operations : List Operation) : List Record :=
  filter.select ((machine.events operations).map Event.record)

@[simp] theorem after_nil (machine : Machine) : machine.after [] = machine := rfl

@[simp] theorem after_cons (machine : Machine) (operation : Operation) (rest : List Operation) :
    machine.after (operation :: rest) = (machine.apply operation).machine.after rest := rfl

theorem after_append (machine : Machine) (first second : List Operation) :
    machine.after (first ++ second) = (machine.after first).after second :=
  List.foldl_append

@[simp] theorem replies_nil (machine : Machine) : machine.replies [] = [] := rfl

@[simp] theorem replies_cons (machine : Machine) (operation : Operation)
    (rest : List Operation) :
    machine.replies (operation :: rest) =
      machine.apply operation :: (machine.apply operation).machine.replies rest := rfl

end Machine
end ChipEight
