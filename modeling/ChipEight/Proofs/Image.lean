/-
This file shows that a program image stands in the memory as it was given, and that a fetch reads its
words back.
-/
import ChipEight.Proofs.Bare.Operations
import ChipEight.Proofs.Overlay

namespace ChipEight

namespace Rom

section Data

/-- The size of the data decides, and an image keeps what it is made from. -/
structure Judged (name : String) (data : List UInt8) : Prop where
  accepted : (∃ rom, ofData name data = .ok rom) ↔ 1 ≤ data.length ∧ data.length ≤ 3584
  kept (rom : Rom) : ofData name data = .ok rom → rom.name = name ∧ rom.data = data
  refused (fault : LoadFault) : ofData name data = .error fault ↔
    data.length = 0 ∧ fault = .empty name ∨
      3584 < data.length ∧ fault = .tooLarge data.length 3584

theorem ofData_judged (name : String) (data : List UInt8) : Judged name data := by
  by_cases empty : data = []
  · have judged : ofData name data = .error (.empty name) := dif_pos empty
    subst empty
    constructor <;> simp [judged, eq_comm]
  · have filled : 1 ≤ data.length := List.length_pos_iff.mpr empty
    by_cases fits : data.length ≤ 3584
    · have judged : ofData name data = .ok ⟨name, data, empty, fits⟩ :=
        (dif_neg empty).trans (dif_pos fits)
      constructor
      · simp [judged, filled, fits]
      · rintro rom made
        cases judged.symm.trans made
        exact ⟨rfl, rfl⟩
      · intro fault
        simp only [judged, reduceCtorEq, false_iff]
        omega
    · have judged : ofData name data = .error (.tooLarge data.length 3584) :=
        (dif_neg empty).trans (dif_neg fits)
      constructor
      · simp [judged, fits]
      · simp [judged]
      · intro fault
        have large : 3584 < data.length := Nat.not_le.mp fits
        simp [judged, empty, large, eq_comm]

end Data

section Cells

/-- The whole memory: the font, zeros up to the start of the program, the program, and zeros. -/
def cells (rom : Rom) : List UInt8 :=
  Font.glyphs ++ List.replicate (0x200 - 80) 0 ++ rom.data ++
    List.replicate (0x1000 - 0x200 - rom.data.length) 0

variable (rom : Rom)

theorem cells_length : rom.cells.length = 4096 := by
  have fits : rom.data.length ≤ 3584 := rom.fits
  have font : Font.glyphs.length = 80 := rfl
  simp only [cells, List.length_append, List.length_replicate, font]
  omega

theorem getElem_cells (address : Nat) (inside : address < rom.cells.length) :
    rom.cells[address] = rom.image address := by
  have font : Font.glyphs.length = 80 := rfl
  simp only [cells, image, Memory.programStart, List.getElem_append, List.length_append,
    List.length_replicate, List.getElem_replicate, List.getD_eq_getElem?_getD, font]
  grind

/-- The data starts behind the font and its zeros. -/
theorem getElem?_cells_data (k : Nat) (inside : k < rom.data.length) :
    rom.cells[0x200 + k]? = rom.data[k]? := by
  have front : (Font.glyphs ++ List.replicate (0x200 - 80) (0 : UInt8)).length = 0x200 := by
    rw [List.length_append, List.length_replicate, show Font.glyphs.length = 80 from rfl]
  rw [cells, List.getElem?_append_left (by rw [List.length_append, front]; omega),
    List.getElem?_append_right (by rw [front]; omega), front, Nat.add_sub_cancel_left]

end Cells

end Rom

namespace Bare

section Word

/-- The checked reading of a word: the sum comes before the comparison, and both accesses after it. -/
def wordAt (bytes : Array UInt8) (pointer : Nat) : Except Panic (Except WordFault Word) := do
  let next ← sum hostLimit pointer 1
  if next < bytes.size then
    let high ← item bytes pointer
    let low ← item bytes next
    return .ok (Word.ofBytes high low)
  else
    return .error (.outside pointer bytes.size)

theorem wordAt_eq (bytes : Array UInt8) (pointer : Nat) (small : pointer < 2 ^ 64 - 1) :
    wordAt bytes pointer = .ok (Word.fetch bytes pointer) := by
  have next : sum hostLimit pointer 1 = .ok (pointer + 1) := by
    rw [sum, if_pos]
    rw [hostLimit]
    omega
  rw [wordAt, next, Word.fetch]
  by_cases inside : pointer + 1 < bytes.size
  · have first : pointer < bytes.size := Nat.lt_of_succ_lt inside
    simp only [bind, Except.bind, if_pos inside, dif_pos inside, item, dif_pos first]
    rfl
  · simp only [bind, Except.bind, if_neg inside, dif_neg inside]
    rfl

/-- The fetch of the machine is this reading at its counter. -/
theorem fetch_eq_wordAt (bare : Bare) :
    fetch bare =
      match wordAt bare.memory bare.counter.toNat with
      | .error panic => .error (.panic panic) bare
      | .ok (.error fault) => .error (.fault (.word fault)) bare
      | .ok (.ok word) => .ok word { bare with fetched := word } := by
  have small := bare.counter.toNat_lt
  rw [wordAt_eq _ _ (by omega), Word.fetch]
  simp only [fetch, bind_apply, get_apply, sum_small bare.counter.toNat 1 (by omega), check_ok,
    ite_run]
  by_cases inside : bare.counter.toNat + 1 < bare.memory.size
  · have first : bare.counter.toNat < bare.memory.size := Nat.lt_of_succ_lt inside
    simp [inside, item, first]
  · simp [inside]

end Word

end Bare

namespace Word

section Fetch

/-- Both bytes have to lie inside the data, and then the high byte comes first. -/
structure Fetched (bytes : Array UInt8) (pointer : Nat) : Prop where
  succeeds : (∃ word, fetch bytes pointer = .ok word) ↔ pointer + 1 < bytes.size
  value (word : Word) : fetch bytes pointer = .ok word ↔
    ∃ high low, bytes[pointer]? = some high ∧ bytes[pointer + 1]? = some low ∧
      word.toNat = 256 * high.toNat + low.toNat
  fails (fault : WordFault) : fetch bytes pointer = .error fault ↔
    bytes.size ≤ pointer + 1 ∧ fault = .outside pointer bytes.size
  inPlace : pointer < 2 ^ 64 - 1 → Bare.wordAt bytes pointer = .ok (fetch bytes pointer)

theorem toNat_ofBytes (high low : UInt8) :
    (ofBytes high low).toNat = 256 * high.toNat + low.toNat := by
  have := high.toNat_lt
  have := low.toNat_lt
  rw [ofBytes, UInt16.toNat_ofNat']
  omega

theorem fetch_fetched (bytes : Array UInt8) (pointer : Nat) : Fetched bytes pointer := by
  by_cases inside : pointer + 1 < bytes.size
  · have fetched : fetch bytes pointer = .ok (ofBytes bytes[pointer] bytes[pointer + 1]) :=
      dif_pos inside
    have first : pointer < bytes.size := Nat.lt_of_succ_lt inside
    constructor
    · simp [fetched, inside]
    · intro word
      simp [fetched, inside, first, ← toNat_ofBytes, UInt16.toNat_inj, eq_comm]
    · simp [fetched, Nat.not_le.mpr inside]
    · exact Bare.wordAt_eq bytes pointer
  · have missed : fetch bytes pointer = .error (.outside pointer bytes.size) := dif_neg inside
    constructor
    · simp [missed, inside]
    · simp [missed, Array.getElem?_eq_none (Nat.not_lt.mp inside)]
    · simp [missed, Nat.not_lt.mp inside, eq_comm]
    · exact Bare.wordAt_eq bytes pointer

end Fetch

section Encoding

/-- The high byte comes first. -/
def bytes (word : Word) : List UInt8 := [UInt8.ofNat (word.toNat / 256), UInt8.ofNat word.toNat]

/-- The words follow each other without a gap. -/
def encode (words : List Word) : List UInt8 := words.flatMap bytes

theorem encode_length (words : List Word) : (encode words).length = 2 * words.length := by
  induction words with
  | nil => rfl
  | cons word rest inductionHypothesis =>
      have shape : encode (word :: rest) = word.bytes ++ encode rest := rfl
      have two : word.bytes.length = 2 := rfl
      rw [shape, List.length_append, two, inductionHypothesis, List.length_cons]
      omega

theorem getElem?_encode {words : List Word} {i : Nat} {word : Word} (found : words[i]? = some word) :
    (encode words)[2 * i]? = some (UInt8.ofNat (word.toNat / 256)) ∧
      (encode words)[2 * i + 1]? = some (UInt8.ofNat word.toNat) := by
  induction words generalizing i with
  | nil => simp at found
  | cons first rest inductionHypothesis =>
      have shape : encode (first :: rest) =
        UInt8.ofNat (first.toNat / 256) :: UInt8.ofNat first.toNat :: encode rest := rfl
      rw [shape]
      cases i with
      | zero =>
          cases found
          exact ⟨rfl, rfl⟩
      | succ i =>
          rw [List.getElem?_cons_succ] at found
          exact inductionHypothesis found

theorem toNat_bytes (word : Word) :
    word.toNat = 256 * (UInt8.ofNat (word.toNat / 256)).toNat + (UInt8.ofNat word.toNat).toNat := by
  have := word.toNat_lt
  rw [UInt8.toNat_ofNat', UInt8.toNat_ofNat']
  omega

end Encoding

end Word

namespace Machine

section Install

/-- The memory of a machine that was loaded holds the image, also where it is plain data. -/
structure Installed (machine : Machine) (rom : Rom) : Prop where
  memory : (machine.load rom).memory.cells.toList = Font.glyphs ++ List.replicate (0x200 - 80) 0 ++
    rom.data ++ List.replicate (0x1000 - 0x200 - rom.data.length) 0
  inPlace : ∃ loaded, Bare.load rom.name rom.data machine.bare = .ok ⟨⟩ loaded ∧
    loaded.memory = (machine.load rom).memory.cells.toArray

theorem load_cells (machine : Machine) (rom : Rom) :
    (machine.load rom).memory.cells.toList = rom.cells := by
  refine List.ext_getElem ?_ fun address inside inside' => ?_
  · rw [Vector.length_toList, rom.cells_length]
  · have small : address < 4096 := rom.cells_length ▸ inside'
    have found := machine.read_load rom address small
    rw [Memory.read] at found
    rw [Rom.getElem_cells, ← found, Vector.getElem_toList]
    simp only [Nat.mod_eq_of_lt small]

theorem load_installed (machine : Machine) (rom : Rom) : Installed machine rom :=
  ⟨machine.load_cells rom, _, Bare.load_bare machine rom, rfl⟩

/-- The words are an image, and from each place of a loaded machine the fetch reads the word that was
put there. -/
structure Refetched (name : String) (words : List Word) (machine : Machine) : Prop where
  accepted : ∃ rom, Rom.ofData name (Word.encode words) = .ok rom
  fetched (rom : Rom) (i : Nat) (word : Word) : Rom.ofData name (Word.encode words) = .ok rom →
    words[i]? = some word →
    Word.fetch (machine.load rom).memory.cells.toArray (0x200 + 2 * i) = .ok word
  inPlace (rom : Rom) (i : Nat) (word : Word) : Rom.ofData name (Word.encode words) = .ok rom →
    words[i]? = some word →
    let there := ((machine.load rom).advance (.jump (UInt16.ofNat (0x200 + 2 * i)))).bare
    Bare.fetch there = .ok word { there with fetched := word }

theorem fetch_load (machine : Machine) {rom : Rom} {words : List Word} {i : Nat} {word : Word}
    (data : rom.data = Word.encode words) (found : words[i]? = some word) :
    Word.fetch (machine.load rom).memory.cells.toArray (0x200 + 2 * i) = .ok word := by
  obtain ⟨high, low⟩ := Word.getElem?_encode found
  have length := Word.encode_length words
  have inside : i < words.length := (List.getElem?_eq_some_iff.mp found).1
  have cell (k : Nat) (below : k < rom.data.length) :
      (machine.load rom).memory.cells.toArray[0x200 + k]? = rom.data[k]? := by
    rw [← rom.getElem?_cells_data k below, ← machine.load_cells rom]
    simp
  refine ((Word.fetch_fetched _ _).value word).mpr ⟨_, _, ?_, ?_, word.toNat_bytes⟩
  · rw [cell _ (by rw [data, length]; omega), data, high]
  · rw [Nat.add_assoc, cell _ (by rw [data, length]; omega), data, low]

theorem words_refetched (name : String) (words : List Word) (machine : Machine)
    (filled : 1 ≤ words.length) (fits : words.length ≤ 1792) : Refetched name words machine := by
  have judged := Rom.ofData_judged name (Word.encode words)
  have length := Word.encode_length words
  have fetched (rom : Rom) (i : Nat) (word : Word)
      (made : Rom.ofData name (Word.encode words) = .ok rom) (found : words[i]? = some word) :=
    machine.fetch_load (judged.kept rom made).2 found
  refine ⟨judged.accepted.mpr (by omega), fetched, fun rom i word made found => ?_⟩
  have inside : i < words.length := (List.getElem?_eq_some_iff.mp found).1
  have counter : (UInt16.ofNat (0x200 + 2 * i)).toNat = 0x200 + 2 * i := by
    rw [UInt16.toNat_ofNat']
    omega
  intro there
  have read : Bare.wordAt there.memory there.counter.toNat = .ok (.ok word) := by
    change Bare.wordAt (machine.load rom).memory.cells.toArray
      (UInt16.ofNat (0x200 + 2 * i)).toNat = _
    rw [counter, Bare.wordAt_eq _ _ (by omega), fetched rom i word made found]
  rw [Bare.fetch_eq_wordAt, read]

end Install

end Machine

namespace Rom

/-- An image is accepted by its size alone, fills its part of the memory, and is read back word by
word. -/
theorem image_refetched (name : String) (data : List UInt8) (machine : Machine) :
    Judged name data ∧
      (∀ rom, ofData name data = .ok rom → rom.data = data ∧ Machine.Installed machine rom) ∧
      (∀ words : List Word, 1 ≤ words.length → words.length ≤ 1792 →
        Machine.Refetched name words machine) ∧
      ∀ bytes pointer, Word.Fetched bytes pointer :=
  have judged := ofData_judged name data
  ⟨judged, fun rom made => ⟨(judged.kept rom made).2, machine.load_installed rom⟩,
    machine.words_refetched name, Word.fetch_fetched⟩

/-- The last word of the largest image ends with the last cell, and the next place has only one byte
left. -/
theorem image_refetched_full :
    let machine := Machine.initial {} (.arithmetic 0 1)
    let words : List Word := List.replicate 1791 0x1200 ++ [0xABCD]
    ∃ rom, ofData "FULL" (Word.encode words) = .ok rom ∧
      Word.fetch (machine.load rom).memory.cells.toArray 0xFFE = .ok 0xABCD ∧
      Word.fetch (machine.load rom).memory.cells.toArray 0xFFF = .error (.outside 0xFFF 4096) := by
  intro machine words
  have front : (List.replicate 1791 (0x1200 : Word)).length = 1791 := List.length_replicate
  have length : words.length = 1792 := by rw [List.length_append, front]; rfl
  obtain ⟨-, -, refetched, fetched⟩ := image_refetched "FULL" [] machine
  have full := refetched words (by omega) (by omega)
  obtain ⟨rom, made⟩ := full.accepted
  have last : words[1791]? = some 0xABCD := by
    rw [List.getElem?_append_right (by rw [front]), front]
    rfl
  refine ⟨rom, made, full.fetched rom 1791 _ made last, ((fetched _ _).fails _).mpr ?_⟩
  simp

end Rom

end ChipEight
