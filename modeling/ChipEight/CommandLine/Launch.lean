/-
This file finds the program image that the options ask for.
-/
import ChipEight.Archive
import ChipEight.CommandLine.Options
import ChipEight.Rom.File

namespace ChipEight

/-- A source says where the program image lies. -/
inductive Source where
  | file (path : String)
  | archive (path : String) (entryName? : Option String)
  deriving DecidableEq

/-- A launch fault says why there is nothing to run. -/
inductive LaunchFault where
  | noRom
  | romAndArchive
  | noEntryName (names : List String)
  | unopened (path : String) (fault : LoadFault)
  | unloaded (path : String) (fault : LoadFault)
  | unextracted (fault : LoadFault)
  deriving DecidableEq, Repr

def LaunchFault.report : LaunchFault → Report
  | .noRom => { top := "no rom given" }
  | .romAndArchive => { top := "either a rom path or an archive can be given" }
  | .noEntryName names =>
      { top := "--name is required, available roms: " ++ String.intercalate ", " names }
  | .unopened path fault =>
      { top := "unable to open " ++ path, causes := fault.message :: fault.causes }
  | .unloaded path fault =>
      { top := "unable to load " ++ path, causes := fault.message :: fault.causes }
  | .unextracted fault => { top := fault.message, causes := fault.causes }

/-- The options name either a file or an archive. -/
def Options.source (options : Options) : Except LaunchFault Source :=
  match options.archivePath?, options.romPath? with
  | some path, none => .ok (.archive path options.entryName?)
  | none, some path => .ok (.file path)
  | some _, some _ => .error .romAndArchive
  | none, none => .error .noRom

def Source.path : Source → String
  | .file path => path
  | .archive path _ => path

/-- The bytes at the path form an image or hold one in an archive. -/
def Source.rom (source : Source) (bytes : Except InputFault (List UInt8)) :
    Except LaunchFault Rom :=
  match source with
  | .file path => (Rom.ofBytes path bytes).mapError (.unloaded path)
  | .archive path entryName? =>
      match Archive.ofBytes bytes, entryName? with
      | .error fault, _ => .error (.unopened path fault)
      | .ok opened, none => .error (.noEntryName opened.names)
      | .ok opened, some name => (opened.rom name).mapError .unextracted

end ChipEight
