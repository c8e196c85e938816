import TreeWalk.Command.Outcome

/-! # Files and folders

What a path leads to. Folders nest below one root. A path is followed name by name, from the root if
it starts with a slash and from the working folder otherwise. Whatever it passes through has to be a
folder, also where the next name leads back out of it.
-/

namespace TreeWalk

/-- A place among the folders: the names that lead to it from the root, the last one first. -/
abbrev Place := List String

namespace Place

/-- The place that a name leads to. No name and one dot stay, and two dots lead to the folder
    around; the root is the folder around itself. -/
def enter (place : Place) (name : String) : Place :=
  if name = "" ∨ name = "." then place
  else if name = ".." then place.tail
  else name :: place

end Place

inductive Entry where
  | file (content : ByteArray)
  | folder

/-- The content of a file, or the reason why there is none. -/
abbrev FileContent := Except ReadFault ByteArray

/-- The files and folders that a command can see. -/
structure Disk where
  entries : List (Place × Entry)
  /-- Where a path starts that does not start with a slash. -/
  working : Place

namespace Disk

def longestName : Nat := 255

def longestPath : Nat := 4095

/-- What stands at a place. On the way to the working folder and to every entry stand folders. -/
def entry? (disk : Disk) (place : Place) : Option Entry :=
  match disk.entries.lookup place with
  | some entry => some entry
  | none =>
      if (disk.working :: disk.entries.map Prod.fst).any place.isSuffixOf then some .folder
      else none

/-- Where a path starts: the first name of a path from the root is empty. -/
def start (disk : Disk) (names : List String) : Place :=
  if names.head? = some "" then [] else disk.working

/-- The place that the names of a path lead to, whatever stands on the way. -/
def locate (disk : Disk) (path : String) : Place :=
  let names := path.splitOn "/"
  names.foldl Place.enter (disk.start names)

def add (disk : Disk) (path : String) (entry : Entry) : Disk :=
  { disk with entries := (disk.locate path, entry) :: disk.entries }

/-- Follow one name, out of what has to be a folder. -/
def step (disk : Disk) (place : Place) (name : String) : Except ReadFault Place :=
  match disk.entry? place with
  | none => .error .absent
  | some (.file _) => .error .notFolder
  | some .folder =>
      if longestName < name.utf8ByteSize then .error .nameTooLong else .ok (place.enter name)

def walk (disk : Disk) : Place → List String → Except ReadFault Place
  | place, [] => .ok place
  | place, name :: names =>
      match disk.step place name with
      | .error fault => .error fault
      | .ok next => disk.walk next names

def follow (disk : Disk) (path : String) : Except ReadFault Place :=
  let names := path.splitOn "/"
  if path = "" then .error .absent
  else if longestPath < path.utf8ByteSize then .error .nameTooLong
  else disk.walk (disk.start names) names

def read (disk : Disk) (path : String) : FileContent :=
  match disk.follow path with
  | .error fault => .error fault
  | .ok place =>
      match disk.entry? place with
      | none => .error .absent
      | some .folder => .error .folder
      | some (.file content) => .ok content

end Disk

end TreeWalk
