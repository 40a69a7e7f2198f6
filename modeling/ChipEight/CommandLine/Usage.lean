/-
This file holds the text that explains the command line.
-/

namespace ChipEight

def usageLines : List String :=
  ["Usage: chip8-vm [<rom>] [OPTIONS]",
   "",
   "Options:",
   "  --archive <zip>          Load the rom from a zip archive",
   "  --name <entry>           Name of the rom inside the archive",
   "  --hz <n>                 Instructions per second [default: 360]",
   "  --cycles-per-tick <n>    Instructions per timer decrement [default: 10]",
   "  --seed <n>               Seed for the random number generator",
   "  --shift-quirk            8XY6 and 8XYE store the shifted bit in VF",
   "  --tick-while-blocked     Timers keep running while waiting for a key",
   "  --log <file>             Write the log into the file instead of stderr",
   "  --log-level <level>      off, error, warn, info, debug or trace [default: warn]",
   "",
   "Keys are read from stdin, one line per keyboard state:",
   "  1234 / qwer / asdf / zxcv, an empty line releases all keys, 'quit' stops."]

def usageText : String :=
  String.join (usageLines.map fun line => line ++ "\n")

end ChipEight
