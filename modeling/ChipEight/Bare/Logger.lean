/-
This file writes a log piece by piece behind the bytes that are already there.
-/
import ChipEight.Log

namespace ChipEight.Bare

/-- A logger keeps its filter and all bytes that it has written. -/
structure Logger where
  filter : Filter
  written : ByteArray

namespace Logger

def put (logger : Logger) (piece : String) : Logger :=
  { logger with written := logger.written ++ piece.toUTF8 }

/-- The spaces are written one by one. -/
def fill (logger : Logger) : Nat → Logger
  | 0 => logger
  | count + 1 => (logger.put " ").fill count

/-- A short text is filled up to the width. -/
def pad (logger : Logger) (width : Nat) (text : String) : Logger :=
  (logger.put text).fill (width - text.length)

def writeLine (logger : Logger) (record : Record) : Logger :=
  (((((logger.pad 5 record.level.name).put " [").put record.target).put "] ").put
    record.message).put "\n"

/-- A record above the filter is passed over. -/
def log (logger : Logger) (record : Record) : Logger :=
  if logger.filter.allows record.level then logger.writeLine record else logger

def logAll (logger : Logger) (records : List Record) : Logger :=
  records.foldl log logger

end Logger
end ChipEight.Bare
