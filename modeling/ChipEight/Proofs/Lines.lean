/-
This file shows that a log has the lines of its enabled records, and that these records can be read back.
-/
import Mathlib.Data.List.Basic
import Mathlib.Data.List.Flatten
import ChipEight.Bare.Logger
import ChipEight.Log.Reader

namespace ChipEight

namespace Filter

section Selection

variable (filter : Filter) (records others : List Record)

theorem text_append : filter.text (records ++ others) = filter.text records ++ filter.text others := by
  simp only [text, select, List.filter_append, List.map_append, String.join_append]

theorem text_singleton_allowed {record : Record} (allowed : filter.allows record.level) :
    filter.text [record] = record.line ++ "\n" := by
  simp [text, select, allowed]

theorem text_singleton_refused {record : Record} (refused : ¬ filter.allows record.level) :
    filter.text [record] = "" := by
  simp [text, select, refused]

theorem select_off : off.select records = [] := by
  refine List.filter_eq_nil_iff.mpr fun record _ => ?_
  cases level : record.level <;> simp [allows, rank, Level.rank]

variable {filter} in
/-- The stricter filter selects again from what the looser one selects. -/
theorem select_select {stricter : Filter} (strict : stricter.rank ≤ filter.rank) :
    stricter.select (filter.select records) = stricter.select records := by
  rw [select, select, select, List.filter_filter]
  refine List.filter_congr fun record _ => ?_
  have implied : stricter.allows record.level = true → filter.allows record.level = true := by
    simp only [allows, decide_eq_true_eq]
    omega
  cases allowed : stricter.allows record.level with
  | true => simp [implied allowed]
  | false => rfl

variable {filter} in
theorem select_sublist {stricter : Filter} (strict : stricter.rank ≤ filter.rank) :
    (stricter.select records).Sublist (filter.select records) :=
  select_select records strict ▸ List.filter_sublist

end Selection

end Filter

namespace Bare.Logger

section Writing

variable (logger : Logger)

theorem put_empty : logger.put "" = logger := by
  simp [put]

theorem put_put (first second : String) : (logger.put first).put second = logger.put (first ++ second) := by
  simp only [put, String.toUTF8, String.toByteArray_append, ByteArray.append_assoc]

/-- The padding is the column of the level. -/
theorem pad_level (level : Level) : logger.pad 5 level.name = logger.put level.column := by
  cases level with
  | warn | info => exact logger.put_put _ _
  | error | debug | trace => rfl

theorem writeLine_eq (record : Record) : logger.writeLine record = logger.put (record.line ++ "\n") := by
  rw [writeLine, pad_level]
  simp only [put_put, Record.line]

theorem log_eq (record : Record) : logger.log record = logger.put (logger.filter.text [record]) := by
  rw [log]
  split
  · next allowed => rw [writeLine_eq, Filter.text_singleton_allowed _ allowed]
  · next refused => rw [Filter.text_singleton_refused _ refused, put_empty]

/-- The bytes of the text stand behind the ones that were there. -/
theorem logAll_eq (records : List Record) :
    logger.logAll records = logger.put (logger.filter.text records) := by
  induction records generalizing logger with
  | nil => exact logger.put_empty.symm
  | cons record rest inductionHypothesis =>
      have following : (logger.log record).logAll rest =
          (logger.log record).put (logger.filter.text rest) := by
        rw [inductionHypothesis, log_eq]
        rfl
      rw [← List.singleton_append, Filter.text_append, ← put_put, ← log_eq, ← following]
      rfl

end Writing

end Bare.Logger

namespace Log

section Lines

theorem lines_append (line : List Char) (text : String) :
    lines (String.ofList (line ++ ['\n']) ++ text) = line.splitOn '\n' ++ lines text := by
  have split : (line ++ '\n' :: text.toList).splitOn '\n' =
      line.splitOn '\n' ++ text.toList.splitOn '\n' := by
    simp only [List.splitOn_eq_splitOnP]
    exact List.splitOnP_append_cons line text.toList rfl
  have rest : text.toList.splitOn '\n' ≠ [] := List.splitOn_ne_nil _ _
  rw [lines, String.toList_append, String.toList_ofList, List.append_assoc, List.singleton_append,
    split, List.dropLast_append_of_ne_nil rest, lines]

/-- A message can have several lines. -/
theorem lines_join (records : List Record) :
    lines (String.join (records.map fun record => record.line ++ "\n")) =
      records.flatMap fun record => record.line.toList.splitOn '\n' := by
  induction records with
  | nil => rfl
  | cons record rest inductionHypothesis =>
      have shape : record.line ++ "\n" = String.ofList (record.line.toList ++ ['\n']) := by
        rw [String.ofList_append, String.ofList_toList]
      rw [List.map_cons, String.join_cons, shape, lines_append, inductionHypothesis, List.flatMap_cons]

theorem lines_text (filter : Filter) (records : List Record) :
    lines (filter.text records) =
      (filter.select records).flatMap fun record => record.line.toList.splitOn '\n' :=
  lines_join _

end Lines

end Log

section Reading

/-- A plain record keeps to one line, and its target ends at the first closing bracket. -/
structure Record.Plain (record : Record) : Prop where
  bracket : ']' ∉ record.target.toList
  target : '\n' ∉ record.target.toList
  message : '\n' ∉ record.message.toList

/-- A closing bracket in a target leaves open where the target ends. -/
example : Record.line ⟨.info, "a] b", "c"⟩ = Record.line ⟨.info, "a", "b] c"⟩ := by decide

theorem Level.length_column (level : Level) : level.column.toList.length = 5 := by
  cases level <;> rfl

theorem Level.ofColumn?_column (level : Level) : ofColumn? level.column.toList = some level := by
  cases level <;> decide

theorem Level.newline_not_mem_column (level : Level) : '\n' ∉ level.column.toList := by
  cases level <;> decide

variable {record : Record}

theorem Record.toList_line (record : Record) : record.line.toList =
    record.level.column.toList ++ ([' ', '['] ++ (record.target.toList ++ ([']', ' '] ++ record.message.toList))) := by
  simp only [line, String.toList_append, List.append_assoc]
  rfl

theorem Record.Plain.newline_not_mem_line (plain : record.Plain) : '\n' ∉ record.line.toList := by
  simp only [toList_line, List.mem_append, not_or]
  exact ⟨record.level.newline_not_mem_column, by decide, plain.target, by decide, plain.message⟩

theorem Record.Plain.ofLine?_line (plain : record.Plain) : ofLine? record.line.toList = some record := by
  -- The parts are cut off from the left, and only the end of the target has to be searched.
  have column : record.line.toList.take 5 = record.level.column.toList := by
    rw [toList_line, List.take_append_of_le_length (Nat.le_of_eq record.level.length_column.symm),
      List.take_of_length_le (Nat.le_of_eq record.level.length_column)]
  have behind : record.line.toList.drop 7 =
      record.target.toList ++ ([']', ' '] ++ record.message.toList) := by
    rw [toList_line, ← List.append_assoc, List.drop_left' (by simp [Level.length_column])]
  have target : (record.line.toList.drop 7).takeWhile (· ≠ ']') = record.target.toList := by
    rw [behind, List.takeWhile_append_of_pos]
    · simp
    · intro character inside
      simpa using fun same : character = ']' => plain.bracket (same ▸ inside)
  have message : record.line.toList.drop (9 + record.target.toList.length) = record.message.toList := by
    rw [show 9 + record.target.toList.length = 7 + (record.target.toList.length + 2) by omega,
      ← List.drop_drop, behind, ← List.append_assoc, List.drop_left' (by simp)]
  rw [ofLine?, column, Level.ofColumn?_column]
  simp only [target, message, String.ofList_toList, if_true]

variable {filter : Filter} {records : List Record}

theorem Log.lines_text_plain (plain : ∀ record ∈ filter.select records, record.Plain) :
    lines (filter.text records) = (filter.select records).map fun record => record.line.toList := by
  rw [lines_text, List.map_eq_flatMap]
  refine List.flatMap_congr fun record enabled => ?_
  exact List.splitOn_eq_singleton (plain record enabled).newline_not_mem_line

theorem Log.read_text (plain : ∀ record ∈ filter.select records, record.Plain) :
    read (filter.text records) = filter.select records := by
  have each : ∀ record ∈ filter.select records,
      (Record.ofLine? ∘ fun record => record.line.toList) record = some record :=
    fun record enabled => Function.comp_apply.trans (plain record enabled).ofLine?_line
  rw [read, lines_text_plain plain, List.filterMap_map, List.filterMap_congr each]
  exact List.filterMap_some

end Reading

namespace Filter

section Listed

variable (filter : Filter) (records : List Record)

/-- The enabled records have their lines in the text, one after another, and unless a record runs into
other lines they can be read back. -/
structure Lists : Prop where
  text : filter.text records = String.join ((records.filter fun record =>
    record.level.rank ≤ filter.rank).map fun record => record.line ++ "\n")
  written (before : ByteArray) : (Bare.Logger.mk filter before).logAll records =
    ⟨filter, before ++ (filter.text records).toUTF8⟩
  silent : filter = .off → filter.text records = ""
  stricter (other : Filter) : other.rank ≤ filter.rank →
    ((other.select records).map Record.line).Sublist ((filter.select records).map Record.line) ∧
      (Log.lines (other.text records)).Sublist (Log.lines (filter.text records))
  lines : (∀ record ∈ filter.select records, record.Plain) →
    Log.lines (filter.text records) = (filter.select records).map fun record => record.line.toList
  read : (∀ record ∈ filter.select records, record.Plain) →
    Log.read (filter.text records) = filter.select records
  recovered (other : Filter) (others : List Record) :
    (∀ record ∈ filter.select records, record.Plain) →
    (∀ record ∈ other.select others, record.Plain) →
    filter.text records = other.text others → filter.select records = other.select others
  recoveredInPlace (other : Filter) (others : List Record) :
    (∀ record ∈ filter.select records, record.Plain) →
    (∀ record ∈ other.select others, record.Plain) →
    ((Bare.Logger.mk filter .empty).logAll records).written =
      ((Bare.Logger.mk other .empty).logAll others).written →
    filter.select records = other.select others

variable {filter records}

theorem recovered {other : Filter} {others : List Record}
    (plain : ∀ record ∈ filter.select records, record.Plain)
    (plainOthers : ∀ record ∈ other.select others, record.Plain)
    (same : filter.text records = other.text others) : filter.select records = other.select others := by
  rw [← Log.read_text plain, same, Log.read_text plainOthers]

/-- The bytes in an empty log tell its text. -/
theorem text_of_written {other : Filter} {others : List Record}
    (same : ((Bare.Logger.mk filter .empty).logAll records).written =
      ((Bare.Logger.mk other .empty).logAll others).written) :
    filter.text records = other.text others := by
  rw [Bare.Logger.logAll_eq, Bare.Logger.logAll_eq] at same
  simpa [Bare.Logger.put, String.toByteArray_inj] using same

variable (filter records)

/-- A log lists its enabled records, whatever its filter and its records are. -/
theorem records_recovered : Lists filter records where
  text := rfl
  written before := Bare.Logger.logAll_eq ⟨filter, before⟩ records
  silent := by
    rintro rfl
    rw [text, select_off]
    rfl
  stricter other strict := by
    have fewer := select_sublist records strict
    refine ⟨fewer.map Record.line, ?_⟩
    rw [Log.lines_text, Log.lines_text]
    exact fewer.flatMap _
  lines plain := Log.lines_text_plain plain
  read := Log.read_text
  recovered _ _ := recovered
  recoveredInPlace _ _ plain plainOthers same := recovered plain plainOthers (text_of_written same)

/-- Brackets and spaces in a message and an empty message do not disturb the reading. -/
theorem records_recovered_brackets :
    let records : List Record :=
      [⟨.warn, "chip [1", " a] b "⟩, ⟨.trace, "chip", "hidden"⟩, ⟨.debug, "", ""⟩]
    Log.read ((upTo .debug).text records) = [⟨.warn, "chip [1", " a] b "⟩, ⟨.debug, "", ""⟩] ∧
      ∀ others : List Record, (∀ record ∈ (upTo .trace).select others, record.Plain) →
        (upTo .trace).text others = (upTo .debug).text records →
        (upTo .trace).select others = [⟨.warn, "chip [1", " a] b "⟩, ⟨.debug, "", ""⟩] := by
  intro records
  have selected : (upTo .debug).select records =
    [⟨.warn, "chip [1", " a] b "⟩, ⟨.debug, "", ""⟩] := by decide
  have plain : ∀ record ∈ (upTo .debug).select records, record.Plain := by
    rw [selected, List.forall_mem_cons, List.forall_mem_singleton]
    exact ⟨⟨by decide, by decide, by decide⟩, ⟨by decide, by decide, by decide⟩⟩
  have lists := records_recovered (upTo .debug) records
  rw [← selected]
  refine ⟨lists.read plain, fun others plainOthers same => ?_⟩
  exact (lists.recovered _ others plain plainOthers same.symm).symm

end Listed

end Filter

end ChipEight
