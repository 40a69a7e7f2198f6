/-
This file holds the machine as plain data, whose sizes nothing enforces. An access can miss and a
sum can overflow, and then the machine panics.
-/
import ChipEight.Machine.Execution

namespace ChipEight

/-- A panic is a failure that the machine does not look out for. -/
inductive Panic where
  /-- There is no item at the position. -/
  | index (position length : Nat)
  /-- The slice stops past the last item. -/
  | slice (stop length : Nat)
  /-- There is no room for one more item. -/
  | full
  /-- The result does not fit into its word. -/
  | overflow
  deriving DecidableEq, Repr

/-- A bare machine keeps its parts as plain data. -/
structure Bare where
  config : Config
  name : String
  loaded : Bool
  memory : Array UInt8
  registers : Array UInt8
  index : Word
  counter : Word
  fetched : Word
  /-- The innermost call comes last. -/
  stack : Array Word
  delay : Timer
  sound : Timer
  threshold : UInt32
  cycle : UInt32
  /-- The rows follow each other from the top down. -/
  display : Array (Array Bool)
  dirty : Bool
  keypad : Keypad
  generator : Generator

namespace Bare

/-- A frame is a copy of the display. -/
abbrev Frame := Array (Array Bool)

/-- An action stops with a fault that it reports, or with a panic. -/
inductive Stop where
  | fault (fault : Fault)
  | panic (panic : Panic)

/-- An action changes the machine in place, so a stop keeps all changes before it. -/
abbrev Action := EStateM Stop Bare

/-- The positions of the host are words of 64 bits. -/
def hostLimit : Nat := 0x10000000000000000

section Checks

variable {A : Type}

def item (items : Array A) (position : Nat) : Except Panic A :=
  if inside : position < items.size then .ok items[position]
  else .error (.index position items.size)

def replace (items : Array A) (position : Nat) (value : A) : Except Panic (Array A) :=
  if inside : position < items.size then .ok (items.set position value)
  else .error (.index position items.size)

/-- The slice holds the items before the stop. -/
def front (items : Array A) (stop : Nat) : Except Panic (List A) :=
  if stop ≤ items.size then .ok (items.toList.take stop)
  else .error (.slice stop items.size)

/-- The items have a fixed capacity. -/
def append (items : Array A) (capacity : Nat) (value : A) : Except Panic (Array A) :=
  if items.size < capacity then .ok (items.push value) else .error .full

/-- A sum has to stay below the limit of its word. -/
def sum (limit left right : Nat) : Except Panic Nat :=
  if left + right < limit then .ok (left + right) else .error .overflow

/-- A single bit has to stay inside its byte. -/
def bitMask (place : Nat) : Except Panic UInt8 :=
  if place < 8 then .ok (1 <<< UInt8.ofNat place) else .error .overflow

def overwrite (items : Array A) (start : Nat) : List A → Array A
  | [] => items
  | value :: rest => overwrite (items.setIfInBounds start value) (start + 1) rest

/-- The values are copied to a slice of the same length. -/
def copy (items : Array A) (start : Nat) (values : List A) : Except Panic (Array A) :=
  match sum hostLimit start values.length with
  | .error panic => .error panic
  | .ok stop =>
      if stop ≤ items.size then .ok (overwrite items start values)
      else .error (.slice stop items.size)

/-- A check that fails stops the action. -/
def check : Except Panic A → Action A
  | .ok value => pure value
  | .error panic => throw (.panic panic)

end Checks

def register (x : Nat) : Action UInt8 := do
  let bare ← get
  check (item bare.registers x)

def setRegister (x : Nat) (value : UInt8) : Action Unit := do
  let bare ← get
  let registers ← check (replace bare.registers x value)
  set { bare with registers := registers }

/-- An address past the end counts again from the start. -/
def cell (address : Nat) : Action UInt8 := do
  let bare ← get
  check (item bare.memory (address % Memory.size))

def setCell (address : Nat) (value : UInt8) : Action Unit := do
  let bare ← get
  let memory ← check (replace bare.memory (address % Memory.size) value)
  set { bare with memory := memory }

def pixel (x y : Nat) : Action Bool := do
  let bare ← get
  let row ← check (item bare.display y)
  check (item row x)

def setPixel (x y : Nat) (lit : Bool) : Action Unit := do
  let bare ← get
  let row ← check (item bare.display y)
  let row ← check (replace row x lit)
  let display ← check (replace bare.display y row)
  set { bare with display := display }

/-- Clearing keeps the rows and their lengths. -/
def clearDisplay : Action Unit :=
  modify fun bare => { bare with display := bare.display.map fun row => row.map fun _ => false }

/-- A call needs room for its address. -/
def pushCall (address : Word) : Action Unit := do
  let bare ← get
  if bare.stack.size = CallStack.capacity then
    throw (.fault (.stack .full))
  else
    let stack ← check (append bare.stack CallStack.capacity address)
    set { bare with stack := stack }

/-- A return takes the address of the innermost call. -/
def popCall : Action Word := do
  let bare ← get
  match bare.stack.back? with
  | none => throw (.fault (.stack .empty))
  | some address =>
      set { bare with stack := bare.stack.pop }
      return address

def advance (move : Advance) : Action Unit :=
  modify fun bare => { bare with counter := move.apply bare.counter }

/-- The random byte is gone once it was taken. -/
def takeByte : Action UInt8 := do
  let bare ← get
  set { bare with generator := bare.generator.next }
  return bare.generator.byte

section Runs

variable {Failure State A B : Type}

@[simp] theorem bind_apply (first : EStateM Failure State A) (rest : A → EStateM Failure State B)
    (state : State) :
    (first >>= rest) state =
      match first state with
      | .ok value next => rest value next
      | .error failure next => .error failure next := by
  change EStateM.bind first rest state = _
  unfold EStateM.bind
  cases first state <;> rfl

@[simp] theorem map_apply (change : A → B) (action : EStateM Failure State A) (state : State) :
    (change <$> action) state =
      match action state with
      | .ok value next => .ok (change value) next
      | .error failure next => .error failure next := by
  change EStateM.map change action state = _
  unfold EStateM.map
  cases action state <;> rfl

@[simp] theorem pure_apply (value : A) (state : State) :
    (pure value : EStateM Failure State A) state = .ok value state := rfl

@[simp] theorem throw_apply (failure : Failure) (state : State) :
    (throw failure : EStateM Failure State A) state = .error failure state := rfl

@[simp] theorem get_apply (state : State) :
    (get : EStateM Failure State State) state = .ok state state := rfl

@[simp] theorem set_apply (next state : State) :
    (set next : EStateM Failure State PUnit) state = .ok ⟨⟩ next := rfl

@[simp] theorem modify_apply (change : State → State) (state : State) :
    (modify change : EStateM Failure State PUnit) state = .ok ⟨⟩ (change state) := rfl

@[simp] theorem ite_run (condition : Prop) [Decidable condition]
    (yes no : EStateM Failure State A) (state : State) :
    (if condition then yes else no) state = if condition then yes state else no state := by
  split <;> rfl

@[simp] theorem check_ok (value : A) (bare : Bare) :
    check (.ok value) bare = .ok value bare := rfl

/-- Host sums of small numbers do not overflow. -/
theorem sum_small (left right : Nat) (small : left + right < 0x100000000) :
    sum hostLimit left right = .ok (left + right) := by
  have wide : 0x100000000 ≤ hostLimit := by decide
  rw [sum, if_pos (by omega)]

end Runs

end Bare
end ChipEight
