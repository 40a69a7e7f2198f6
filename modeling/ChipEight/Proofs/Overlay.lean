/-
This file shows that the memory is the image of the program, overlaid by the bytes that were stored
last.
-/
import Mathlib.Data.List.Induction
import Mathlib.Data.List.Infix
import ChipEight.Proofs.Deed

namespace ChipEight

section Image

/-- The font lies below the program, and all other cells are zero. -/
def Rom.image (rom : Rom) (address : Nat) : UInt8 :=
  if address < Memory.programStart then Font.glyphs.getD address 0
  else rom.data.getD (address - Memory.programStart) 0

theorem Memory.read_initial (address : Nat) (inside : address < 4096) :
    Memory.initial.read address = Font.glyphs.getD address 0 := by
  have start : distance Font.location address = address := by
    rw [distanceIff _ _ _ inside, Font.location, Nat.zero_add]
  have blank : Memory.read ⟨Vector.replicate 4096 0⟩ address = 0 := Vector.getElem_replicate _
  rw [initial, readWriteAll _ _ _ _ (by decide), start, blank, List.getD_eq_getElem?_getD]

/-- Loading puts the program behind the font. -/
theorem Machine.read_load (machine : Machine) (rom : Rom) (address : Nat)
    (inside : address < 4096) : (machine.load rom).memory.read address = rom.image address := by
  have fits : rom.data.length ≤ 4096 - 0x200 := rom.fits
  have shape : (machine.load rom).memory = Memory.initial.writeAll 0x200 rom.data := rfl
  have blank := Memory.read_initial address inside
  rw [shape, Memory.readWriteAll _ _ _ _ (by omega), blank, Rom.image, Memory.programStart]
  by_cases below : address < 0x200
  · have past : rom.data.length ≤ Memory.distance 0x200 address := by
      rw [Memory.distance]
      omega
    rw [if_pos below, List.getElem?_eq_none past]
    rfl
  · have place : Memory.distance 0x200 address = address - 0x200 := by
      rw [Memory.distance]
      omega
    have short : Font.glyphs.length ≤ address := Nat.le_trans (by decide) (Nat.not_lt.mp below)
    rw [if_neg below, place, List.getD_eq_getElem?_getD, List.getD_eq_getElem?_getD,
      List.getElem?_eq_none short]
    rfl

end Image

namespace Deed

section Stores

variable (deed : Deed)

/-- The digits and the registers go to consecutive cells from the index register on; behind the last
cell comes the first one. -/
def Stores (address : Nat) (value : UInt8) : Prop :=
  (∃ x, deed.instruction = .storeDigits x ∧ ∃ k < 3,
    (deed.before.index.toNat + k) % 4096 = address ∧
      value.toNat = (deed.before.register x).toNat / 10 ^ (2 - k) % 10) ∨
  (∃ last, deed.instruction = .storeRegisters last ∧ ∃ k ≤ last,
    (deed.before.index.toNat + k.val) % 4096 = address ∧ value = deed.before.register k)

/-- The byte that the deed stores at an address, if it stores one there. -/
def stored? (address : Nat) : Option UInt8 :=
  (deed.before.performBytes deed.instruction)[Memory.distance deed.before.index.toNat address]?

theorem digits_getElem? (value digit : UInt8) (k : Nat) :
    (Machine.digits value)[k]? = some digit ↔
      k < 3 ∧ digit.toNat = value.toNat / 10 ^ (2 - k) % 10 := by
  have small := value.toNat_lt
  match k with
  | 0 => simp [Machine.digits, ← UInt8.toNat_inj]; omega
  | 1 => simp [Machine.digits, ← UInt8.toNat_inj, eq_comm]
  | 2 => simp [Machine.digits, ← UInt8.toNat_inj, eq_comm]
  | k + 3 => simp [Machine.digits]

theorem registers_getElem? (machine : Machine) (last : Nibble) (value : UInt8) (k : Nat) :
    (machine.registers.toList.take (last.val + 1))[k]? = some value ↔
      ∃ j ≤ last, j.val = k ∧ value = machine.register j := by
  rw [List.getElem?_take]
  constructor
  · intro found
    split at found
    · rename_i below
      obtain ⟨inside, shape⟩ := List.getElem?_eq_some_iff.mp found
      have small : k < 16 := by omega
      exact ⟨⟨k, small⟩, Nat.lt_succ_iff.mp below, rfl, shape.symm⟩
    · cases found
  · rintro ⟨j, below, rfl, rfl⟩
    rw [if_pos (Nat.lt_succ_iff.mpr below)]
    exact List.getElem?_eq_some_iff.mpr ⟨by simp, rfl⟩

theorem getElem?_distance (bytes : List UInt8) (start address : Nat) (value : UInt8)
    (short : bytes.length ≤ 4096) (inside : address < 4096) :
    bytes[Memory.distance start address]? = some value ↔
      ∃ k, (start + k) % 4096 = address ∧ bytes[k]? = some value := by
  constructor
  · intro found
    obtain ⟨below, -⟩ := List.getElem?_eq_some_iff.mp found
    have place := (Memory.distanceIff start address _ (by omega)).mp rfl
    exact ⟨_, place.trans (Nat.mod_eq_of_lt inside), found⟩
  · rintro ⟨k, place, found⟩
    obtain ⟨below, -⟩ := List.getElem?_eq_some_iff.mp found
    rw [(Memory.distanceIff start address k (by omega)).mpr (by omega), found]

theorem stored?_eq_some_iff (address : Nat) (inside : address < 4096) (value : UInt8) :
    deed.stored? address = some value ↔ deed.Stores address value := by
  have short := deed.before.performBytes_short deed.instruction
  rw [stored?, getElem?_distance _ _ _ _ (by omega) inside]
  unfold Stores
  cases deed.instruction with
  | storeDigits x =>
      simp only [Machine.performBytes, digits_getElem?, reduceCtorEq, false_and, exists_false,
        or_false, Instruction.storeDigits.injEq, exists_eq_left']
      constructor
      · rintro ⟨k, place, below, byte⟩
        exact ⟨k, below, place, byte⟩
      · rintro ⟨k, below, place, byte⟩
        exact ⟨k, place, below, byte⟩
  | storeRegisters last =>
      simp only [Machine.performBytes, registers_getElem?, reduceCtorEq, false_and, exists_false,
        false_or, Instruction.storeRegisters.injEq, exists_eq_left']
      constructor
      · rintro ⟨_, place, j, below, rfl, byte⟩
        exact ⟨j, below, place, byte⟩
      · rintro ⟨j, below, place, byte⟩
        exact ⟨j.val, place, j, below, rfl, byte⟩
  | _ => simp [Machine.performBytes]

theorem read_after (address : Nat) :
    deed.after.memory.read address =
      (deed.stored? address).getD (deed.before.memory.read address) := by
  have short := deed.before.performBytes_short deed.instruction
  rw [deed.stored.memory, Memory.readWriteAll _ _ _ _ (by omega), stored?]

end Stores

section Overlay

/-- The last deed that stores a byte at the address stores this one. -/
def LastStored (deeds : List Deed) (address : Nat) (value : UInt8) : Prop :=
  ∃ earlier deed later, deeds = earlier ++ deed :: later ∧ deed.Stores address value ∧
    ∀ other ∈ later, ∀ byte, ¬ other.Stores address byte

/-- The deeds lay their bytes over an image. -/
def Overlaid (image : Nat → UInt8) (deeds : List Deed) (address : Nat) (value : UInt8) : Prop :=
  LastStored deeds address value ∨
    (∀ deed ∈ deeds, ∀ byte, ¬ deed.Stores address byte) ∧ value = image address

/-- The search starts at the last deed. -/
def lastStored? (deeds : List Deed) (address : Nat) : Option UInt8 :=
  deeds.reverse.findSome? fun deed => deed.stored? address

variable {deeds : List Deed} {address : Nat}

theorem lastStored?_concat (deeds : List Deed) (deed : Deed) (address : Nat) :
    lastStored? (deeds ++ [deed]) address =
      (deed.stored? address).or (lastStored? deeds address) := by
  rw [lastStored?, List.reverse_append, List.reverse_singleton, List.singleton_append,
    List.findSome?_cons]
  cases deed.stored? address <;> rfl

theorem stored?_eq_none_iff (deed : Deed) (inside : address < 4096) :
    deed.stored? address = none ↔ ∀ byte, ¬ deed.Stores address byte := by
  simp only [Option.eq_none_iff_forall_ne_some, ne_eq, deed.stored?_eq_some_iff address inside]

theorem lastStored?_eq_some_iff (inside : address < 4096) (value : UInt8) :
    lastStored? deeds address = some value ↔ LastStored deeds address value := by
  rw [lastStored?, List.findSome?_eq_some_iff]
  constructor
  · rintro ⟨later, deed, earlier, shape, found, none⟩
    refine ⟨earlier.reverse, deed, later.reverse, ?_,
      (deed.stored?_eq_some_iff address inside value).mp found, ?_⟩
    · rw [← List.reverse_reverse deeds, shape]
      simp
    · intro other member
      exact (other.stored?_eq_none_iff inside).mp (none other (List.mem_reverse.mp member))
  · rintro ⟨earlier, deed, later, rfl, stores, none⟩
    refine ⟨later.reverse, deed, earlier.reverse, by simp,
      (deed.stored?_eq_some_iff address inside value).mpr stores, ?_⟩
    intro other member
    exact (other.stored?_eq_none_iff inside).mpr (none other (List.mem_reverse.mp member))

theorem overlaid_iff (image : Nat → UInt8) (inside : address < 4096) (value : UInt8) :
    (lastStored? deeds address).getD (image address) = value ↔
      Overlaid image deeds address value := by
  have untouched : lastStored? deeds address = none ↔
      ∀ deed ∈ deeds, ∀ byte, ¬ deed.Stores address byte := by
    simp only [lastStored?, List.findSome?_eq_none_iff, List.mem_reverse,
      fun deed : Deed => deed.stored?_eq_none_iff inside]
  rw [Overlaid, ← lastStored?_eq_some_iff inside, ← untouched]
  cases lastStored? deeds address <;> simp [eq_comm]

end Overlay

end Deed

namespace Machine

section Run

theorem read_apply (machine : Machine) (operation : Operation)
    (keeps : operation.erases = false) (address : Nat) :
    (machine.apply operation).machine.memory.read address =
      ((machine.deed? operation).bind (Deed.stored? · address)).getD
        (machine.memory.read address) := by
  obtain ⟨none, settled⟩ | ⟨deed, done, rfl, settled⟩ := machine.apply_cases operation keeps
  · rw [none, settled.memory]
    rfl
  · rw [done, settled.memory]
    exact deed.read_after address

/-- A run without an erasure overlays the memory that it starts with. -/
theorem read_after (machine : Machine) (operations : List Operation)
    (keeps : ∀ operation ∈ operations, operation.erases = false) (address : Nat) :
    (machine.after operations).memory.read address =
      (Deed.lastStored? (machine.deeds operations) address).getD
        (machine.memory.read address) := by
  -- The last operation decides first, as the last deed does.
  induction operations using List.reverseRecOn with
  | nil => rfl
  | append_singleton operations operation inductionHypothesis =>
      rw [List.forall_mem_append, List.forall_mem_singleton] at keeps
      have before := inductionHypothesis keeps.1
      have last := (machine.after operations).read_apply operation keeps.2 address
      rw [after_append, deeds_append, after_cons, after_nil, deeds, deeds, List.append_nil, last,
        before]
      cases (machine.after operations).deed? operation with
      | none => simp
      | some deed =>
          rw [Option.toList_some, Deed.lastStored?_concat]
          cases stored : deed.stored? address <;> simp [stored]

end Run

section Font

/-- All glyphs stand where the font lies. -/
def FontIntact (machine : Machine) : Prop :=
  ∀ (address : Nat) (inside : address < Font.glyphs.length),
    machine.memory.read address = Font.glyphs[address]

/-- What the deeds store in the font is what stands there anyway. -/
def KeepsFont (deeds : List Deed) : Prop :=
  ∀ deed ∈ deeds, ∀ (address : Nat) (inside : address < Font.glyphs.length) (value : UInt8),
    deed.Stores address value → value = Font.glyphs[address]

theorem keepsFont_append (first second : List Deed) :
    KeepsFont (first ++ second) ↔ KeepsFont first ∧ KeepsFont second :=
  List.forall_mem_append

theorem font_inside {address : Nat} (inside : address < Font.glyphs.length) : address < 4096 :=
  Nat.lt_trans inside (by decide)

theorem load_fontIntact (machine : Machine) (rom : Rom) : FontIntact (machine.load rom) := by
  intro address inside
  have below : address < Memory.programStart := Nat.lt_trans inside (by decide)
  rw [read_load machine rom address (font_inside inside), Rom.image, if_pos below]
  rw [List.getD_eq_getElem?_getD, List.getElem?_eq_getElem inside, Option.getD_some]

variable {machine : Machine}

theorem apply_fontIntact (intact : FontIntact machine) (operation : Operation)
    (keeps : operation.erases = false) :
    FontIntact (machine.apply operation).machine ↔
      KeepsFont (machine.deed? operation).toList := by
  cases taken : machine.deed? operation with
  | none =>
      refine iff_of_true (fun address inside => ?_) (by simp [KeepsFont])
      rw [read_apply machine operation keeps, taken]
      exact intact address inside
  | some deed =>
      rw [KeepsFont, Option.toList_some, List.forall_mem_singleton]
      refine forall₂_congr fun address inside => ?_
      simp only [← deed.stored?_eq_some_iff address (font_inside inside)]
      rw [read_apply machine operation keeps, taken, Option.bind_some, intact address inside]
      cases deed.stored? address with
      | none => simp
      | some byte => simp

/-- The font is intact all along exactly if no deed stores another byte in it. -/
theorem fontIntact_iff (intact : FontIntact machine) (operations : List Operation)
    (keeps : ∀ operation ∈ operations, operation.erases = false) :
    (∀ first, first <+: operations → FontIntact (machine.after first)) ↔
      KeepsFont (machine.deeds operations) := by
  induction operations using List.reverseRecOn with
  | nil => simp [KeepsFont, deeds, intact]
  | append_singleton operations operation inductionHypothesis =>
      rw [List.forall_mem_append, List.forall_mem_singleton] at keeps
      have earlier := inductionHypothesis keeps.1
      rw [deeds_append, deeds, deeds, List.append_nil, keepsFont_append, ← earlier]
      simp only [List.prefix_concat_iff, forall_eq_or_imp, after_append, after_cons, after_nil]
      rw [and_comm]
      refine and_congr_right fun kept => ?_
      exact apply_fontIntact (kept operations List.prefix_rfl) operation keeps.2

end Font

section Overlay

/-- The memory is the image, overlaid by the deeds; the next word is read from it as it is then, and
the font lasts until a deed stores another byte in it. -/
structure ImageOverlaid (start : Machine) (rom : Rom) (operations : List Operation) : Prop where
  bytes (address : Nat) (inside : address < 4096) (value : UInt8) :
    (start.after operations).memory.read address = value ↔
      Deed.Overlaid rom.image (start.deeds operations) address value
  fetch (word : Word) : (start.after operations).fetch = .ok word ↔
    (start.after operations).counter.toNat + 1 < 4096 ∧ ∃ high low,
      Deed.Overlaid rom.image (start.deeds operations)
        (start.after operations).counter.toNat high ∧
      Deed.Overlaid rom.image (start.deeds operations)
        ((start.after operations).counter.toNat + 1) low ∧
      Word.ofBytes high low = word
  font : (∀ first, first <+: operations → FontIntact (start.after first)) ↔
    KeepsFont (start.deeds operations)

/-- Until the next load or reset, the last bytes that were stored lie over the image. -/
theorem memory_overlaid (machine : Machine) (rom : Rom) (operations : List Operation)
    (keeps : ∀ operation ∈ operations, operation.erases = false) :
    ImageOverlaid (machine.load rom) rom operations := by
  have bytes (address : Nat) (inside : address < 4096) (value : UInt8) :
      ((machine.load rom).after operations).memory.read address = value ↔
        Deed.Overlaid rom.image ((machine.load rom).deeds operations) address value := by
    rw [read_after _ _ keeps, read_load machine rom address inside, Deed.overlaid_iff _ inside]
  refine ⟨bytes, fun word => ?_, fontIntact_iff (load_fontIntact machine rom) operations keeps⟩
  rw [fetch_ok_iff]
  refine and_congr_right fun inside => ?_
  have below := Nat.lt_of_succ_lt inside
  simp only [← bytes _ inside, ← bytes _ below, exists_and_left, exists_eq_left']
  rfl

/-- The program stores a byte over its own next instruction, which then jumps back. -/
theorem memory_overlaid_itself :
    let rom : Rom :=
      ⟨"", [0xA2, 0x06, 0x60, 0x12, 0xF0, 0x55, 0x00, 0x00], by decide, by decide⟩
    let start := (initial {} (.arithmetic 0 1)).load rom
    let operations := [Operation.step, .execute 0x6012, .setKey 3 true, .tick]
    ImageOverlaid start rom operations ∧
      Deed.LastStored (start.deeds operations) 0x206 0x12 ∧
      (start.after operations).fetch = .ok 0x1200 := by
  intro rom start operations
  have overlaid := memory_overlaid (initial {} (.arithmetic 0 1)) rom operations (by decide)
  have high := (overlaid.bytes 0x206 (by decide) 0x12).mp (by decide +kernel)
  have low := (overlaid.bytes 0x207 (by decide) 0x00).mp (by decide +kernel)
  have counter : (start.after operations).counter.toNat = 0x206 := by decide +kernel
  refine ⟨overlaid, high.resolve_right fun untouched => ?_, (overlaid.fetch 0x1200).mpr ?_⟩
  · exact absurd untouched.2 (by decide)
  · rw [counter]
    exact ⟨by decide, 0x12, 0x00, high, low, by decide⟩

end Overlay

end Machine

end ChipEight
