/-
This file holds a tree of files and directories and resolves paths in it.
-/
import ChipEight.InputFault

namespace ChipEight

/-- A node is a file with its bytes or a directory. -/
inductive Node where
  | file (data : List UInt8)
  | directory
  /-- The system does not open this file, and says why. -/
  | barred (fault : InputFault)
  deriving DecidableEq

/-- Only a file that the system opens has bytes to read. -/
def Node.contents : Node → Except InputFault (List UInt8)
  | .file data => .ok data
  | .directory => .error .isDirectory
  | .barred fault => .error fault

/-- An anchor is a directory that exists without being listed. -/
inductive Anchor where
  /-- The tree's own directory is zero levels above itself. -/
  | above (levels : Nat)
  /-- The top is the directory in which all others lie. -/
  | top
  deriving DecidableEq

/-- The names lead from the anchor to the place. -/
structure Place where
  anchor : Anchor
  names : List String
  deriving DecidableEq

namespace Place

/-- The tree's own directory is where relative paths start. -/
def own : Place := ⟨.above 0, []⟩

def top : Place := ⟨.top, []⟩

def child (place : Place) (name : String) : Place :=
  { place with names := place.names ++ [name] }

/-- The top has no way up, and the way up from an anchor leads to another anchor. -/
def parent (place : Place) : Place :=
  match place.names, place.anchor with
  | [], .above levels => ⟨.above (levels + 1), []⟩
  | [], .top => top
  | names, anchor => ⟨anchor, names.dropLast⟩

end Place

/-- The tree lists the known nodes. Around it there are directories, in which nothing is known. -/
structure FileTree where
  nodes : List (Place × Node)

namespace FileTree

def empty : FileTree := ⟨[]⟩

def nameLimit : Nat := 255

def pathLimit : Nat := 4096

/-- The anchors are directories that no list has to name. -/
def node? (tree : FileTree) (place : Place) : Option Node :=
  if place.names.isEmpty then some .directory else tree.nodes.lookup place

/-- A new node takes the place of an old one. -/
def put (tree : FileTree) (place : Place) (node : Node) : FileTree :=
  ⟨(place, node) :: tree.nodes.filter fun entry => entry.1 != place⟩

/-- The directories on the way to a place are made where they are missing. -/
def makeWay (tree : FileTree) (place : Place) : List String → FileTree × Place
  | [] => (tree, place)
  | component :: rest =>
      if component = "" ∨ component = "." then tree.makeWay place rest
      else if component = ".." then tree.makeWay place.parent rest
      else
        let next := place.child component
        let tree := if (tree.node? next).isSome then tree else tree.put next .directory
        tree.makeWay next rest

/-- The directory comes with all directories on the way to it. -/
def addDirectory (tree : FileTree) (path : String) : FileTree :=
  (tree.makeWay .own (path.splitOn "/")).1

/-- The node comes with all directories on the way to it. -/
def addNode (tree : FileTree) (path : String) (node : Node) : FileTree :=
  let names := path.splitOn "/"
  let (tree, parent) := tree.makeWay .own names.dropLast
  tree.put (parent.child (names.getLast?.getD "")) node

def addFile (tree : FileTree) (path : String) (data : List UInt8) : FileTree :=
  tree.addNode path (.file data)

/-- A component of a path enters a directory, stays, or goes up. -/
def enter (tree : FileTree) (place : Place) (component : String) : Except InputFault Place :=
  match tree.node? place with
  | some .directory =>
      if component = "" ∨ component = "." then .ok place
      else if component = ".." then .ok place.parent
      else if nameLimit < component.utf8ByteSize then .error .nameTooLong
      else if (tree.node? (place.child component)).isSome then .ok (place.child component)
      else .error .notFound
  | some (.file _) | some (.barred _) => .error .notDirectory
  | none => .error .notFound

/-- The walk enters one component after another. -/
def walk (tree : FileTree) (place : Place) : List String → Except InputFault Place
  | [] => .ok place
  | component :: rest =>
      match tree.enter place component with
      | .error fault => .error fault
      | .ok next => tree.walk next rest

/-- A path with a slash in front starts at the top. -/
def start (path : String) : Place :=
  if path.startsWith "/" then .top else .own

/-- A path without a zero byte is cut at its slashes. -/
def components (path : String) : Except InputFault (List String) :=
  if path.contains (Char.ofNat 0) then .error .zeroByte
  else if path = "" then .error .notFound
  else if pathLimit ≤ path.utf8ByteSize then .error .nameTooLong
  else .ok (path.splitOn "/")

def read (tree : FileTree) (path : String) : Except InputFault (List UInt8) :=
  match components path with
  | .error fault => .error fault
  | .ok names =>
      match tree.walk (start path) names with
      | .error fault => .error fault
      | .ok place =>
          match tree.node? place with
          | some node => node.contents
          | none => .error .notFound

/-- The last component names the file, whatever directories lead to it. -/
def fileName (path : String) : String :=
  match ((path.splitOn "/").filter fun name => name != "" && name != ".").getLast? with
  | some name => if name = ".." then "" else name
  | none => ""

/-- The place of a new file has a directory before it and a name at its end; a slash after the
name would make it a directory. -/
def newPlace (tree : FileTree) (path : String) : Except InputFault Place :=
  match components path with
  | .error fault => .error fault
  | .ok names =>
      let named := (names.reverse.dropWhile (· == "")).reverse
      match tree.walk (start path) named.dropLast with
      | .error fault => .error fault
      | .ok parent =>
          let name := named.getLast?.getD ""
          match tree.node? parent with
          | some (.file _) | some (.barred _) => .error .notDirectory
          | none => .error .notFound
          | some .directory =>
              if named.length < names.length ∨ name = "." ∨ name = ".." then .error .isDirectory
              else if nameLimit < name.utf8ByteSize then .error .nameTooLong
              else
                match tree.node? (parent.child name) with
                | some .directory => .error .isDirectory
                | some (.barred fault) => .error fault
                | _ => .ok (parent.child name)

/-- A new file holds the given bytes, and an old file of its name loses its own. -/
def write (tree : FileTree) (path : String) (data : List UInt8) : Except InputFault FileTree :=
  match tree.newPlace path with
  | .error fault => .error fault
  | .ok place => .ok (tree.put place (.file data))

/-- A node whose path is a plain name is read where it was put. -/
theorem read_addNode (tree : FileTree) (node : Node) {name : String}
    (whole : name.splitOn "/" = [name]) (nonzero : name.contains (Char.ofNat 0) = false)
    (relative : start name = .own) (plain : name ∉ ["", ".", ".."])
    (short : name.utf8ByteSize ≤ nameLimit) : (tree.addNode name node).read name = node.contents := by
  simp only [List.mem_cons, List.not_mem_nil, or_false, not_or] at plain
  have single : components name = .ok [name] := by
    have within : ¬ pathLimit ≤ name.utf8ByteSize := Nat.not_le.mpr (Nat.lt_of_le_of_lt short (by decide))
    simp [components, nonzero, plain, within, whole]
  have added : tree.addNode name node = tree.put (Place.own.child name) node := by
    rw [addNode, whole]
    rfl
  have found : (tree.put (Place.own.child name) node).node? (Place.own.child name) = some node := by
    simp [node?, put, Place.child]
  have entered : (tree.put (Place.own.child name) node).enter .own name =
      .ok (Place.own.child name) := by
    have here : (tree.put (Place.own.child name) node).node? .own = some .directory := rfl
    simp [enter, here, found, plain, Nat.not_lt.mpr short]
  rw [added, read, single, relative]
  simp only [walk, entered, found]

/-- A reading can answer with any bytes and with any fault. -/
theorem exists_read (bytes : Except InputFault (List UInt8)) :
    ∃ files : FileTree, files.read "game" = bytes := by
  have node (node : Node) : (empty.addNode "game" node).read "game" = node.contents :=
    empty.read_addNode node (by simp +decide [String.splitOn, String.splitOnAux])
      (by simp [String.contains_char_eq]) (by decide +kernel) (by decide) (by decide)
  cases bytes with
  | ok data => exact ⟨_, node (.file data)⟩
  | error fault => exact ⟨_, node (.barred fault)⟩

end FileTree
end ChipEight
