/-
This file keeps the log of a bare machine, record by record, while the machine works.
-/
import ChipEight.Bare.Operation

namespace ChipEight.Bare

/-- A logged machine is a bare machine with the records that it wrote so far. -/
structure Logged where
  bare : Bare
  /-- The records stand in the order in which they were written. -/
  records : List Record

namespace Logged

/-- An action works on the machine in place and writes to the log. -/
abbrev Action := EStateM Stop Logged

section Writing

variable {A : Type}

/-- The records stay beside the machine that an action leaves behind. -/
def beside (records : List Record) : EStateM.Result Stop Bare A → EStateM.Result Stop Logged A
  | .ok value bare => .ok value ⟨bare, records⟩
  | .error stop bare => .error stop ⟨bare, records⟩

/-- A silent action writes nothing. -/
def silent (action : Bare.Action A) : Action A :=
  fun logged => beside logged.records (action logged.bare)

/-- The filter decides whether the record of the event is written. -/
def write (filter : Filter) (event : Event) : Action PUnit :=
  modify fun logged =>
    if filter.allows event.level then { logged with records := logged.records ++ [event.record] }
    else logged

/-- A fault is reported before it is passed on, and a panic is not. -/
def reporting (action : Action A) (report : Fault → Action PUnit) : Action A :=
  tryCatch action fun
    | .fault fault => do
        report fault
        throw (.fault fault)
    | .panic panic => throw (.panic panic)

end Writing

section Machine

variable (filter : Filter)

/-- Family `0` writes its word, and a return also writes the address that it took. -/
def system (word : Word) : Action Effect := do
  write filter (.system word)
  if word = 0x00EE then
    let caller ← silent popCall
    write filter (.returning caller)
    return { advance := .jump (caller + Advance.wordSize) }
  else
    silent (Bare.system word)

/-- A machine that waits writes that it does. -/
def awaitKey (x : Nat) : Action Effect := do
  let bare ← silent get
  match bare.keypad.highest? with
  | some _ => silent (Bare.awaitKey x)
  | none =>
      write filter .awaitingKey
      return { advance := .stay, signal := .wait }

def other (word : Word) : Action Effect :=
  if byte word = 0x0A then awaitKey filter (x word) else silent (Bare.other word)

/-- Two families write to the log. -/
def handle (family : Nat) (word : Word) : Action Effect :=
  match family with
  | 0x0 => system filter word
  | 0xF => other filter word
  | _ => silent (Bare.handle family word)

def execute (word : Word) : Action Signal := do
  let effect ← handle filter (family word) word
  silent (advance effect.advance)
  return effect.signal

def tickTimers : Action Bool := do
  let beep ← silent Bare.tickTimers
  if beep then
    write filter .beep
  return beep

def settle (signal : Signal) : Action Step := do
  let bare ← silent get
  if signal = .wait then
    if bare.config.tickWhileBlocked then
      let beep ← tickTimers filter
      return .blocked beep
    else
      return .blocked false
  else
    let beep ← tickTimers filter
    return .executed beep

/-- Only faults of the word itself stop a fetch. -/
def reportFetch : Fault → Action PUnit
  | .word fault => write filter (.fetchFailed fault)
  | _ => return

/-- The fault stands beside the program counter and the word at which the machine stopped. -/
def reportFault (fault : Fault) : Action PUnit := do
  let bare ← silent get
  write filter (.failed bare.counter bare.fetched fault)

/-- The fetched word is executed, and then the timers follow. -/
def executeFetched (word : Word) : Action Step := do
  let signal ← reporting (execute filter word) (reportFault filter)
  settle filter signal

def step : Action Step := do
  let bare ← silent get
  if bare.loaded then
    let word ← reporting (silent fetch) (reportFetch filter)
    write filter (.fetched bare.counter word)
    executeFetched filter word
  else
    write filter .unloaded
    throw (.fault .unloaded)

def tick : Action (Step × Forwarded Frame) := do
  let step ← step filter
  let changed ← silent takeDirty
  let bare ← silent get
  return (step, { frame? := if changed then some bare.display else none, beep := step.beep })

def load (rom : Rom) : Action PUnit := do
  silent (Bare.load rom.name rom.data)
  write filter (.loaded rom.name rom.data.length)

def applyLoad (name : String) (data : List UInt8) : Action Answer := do
  match Rom.ofData name data with
  | .error fault => return .refused fault
  | .ok rom =>
      load filter rom
      return .done

def applyLoadFile (files : FileTree) (path : String) : Action Answer := do
  match Rom.ofFile files path with
  | .error fault =>
      silent unload
      return .refused fault
  | .ok rom =>
      load filter rom
      return .done

/-- The answer of an action may be read off its value. -/
def answering {A : Type} (action : Action A) (answer : A → Answer) :
    Action (Answer × Forwarded Frame) := do
  let value ← action
  return (answer value, {})

/-- All other operations write nothing. -/
def act : Operation → Action (Answer × Forwarded Frame)
  | .load name data => answering (applyLoad filter name data) id
  | .loadFile files path => answering (applyLoadFile filter files path) id
  | .step => answering (step filter) .stepped
  | .tick => do
      let (step, forwarded) ← tick filter
      return (.stepped step, forwarded)
  | .execute word => answering (execute filter word) .executed
  | .handle family word =>
      answering (handle filter family.val word) fun effect =>
        .handled effect.advance effect.signal
  | operation => silent (Bare.act operation)

/-- The records outlive the reply. -/
def apply (logged : Logged) (operation : Operation) : Except Panic (Reply × List Record) :=
  match act filter operation logged with
  | .ok (answer, forwarded) next => .ok (⟨next.bare, answer, forwarded⟩, next.records)
  | .error (.fault fault) next => .ok ({ bare := next.bare, answer := .failed fault }, next.records)
  | .error (.panic panic) _ => .error panic

/-- The operations are applied one after another, and all of them write to the same log. -/
def replies (logged : Logged) : List Operation → Except Panic (List Reply × List Record)
  | [] => .ok ([], logged.records)
  | operation :: rest =>
      match apply filter logged operation with
      | .error panic => .error panic
      | .ok (reply, records) =>
          match replies ⟨reply.bare, records⟩ rest with
          | .error panic => .error panic
          | .ok (others, records) => .ok (reply :: others, records)

end Machine

end Logged

end ChipEight.Bare
