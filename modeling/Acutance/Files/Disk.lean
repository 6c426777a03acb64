import Acutance.Files.Path
import Acutance.Files.System

namespace Acutance

/-- The names on the way from the top of a disk to a file or directory. -/
abbrev Location := List String

/-- The directories below the top, and the files with their content. -/
structure Disk where
  directories : List Location
  files : List (Location × Bytes)
  deriving DecidableEq

namespace Disk

/-- The most bytes of a name. -/
def nameLimit : Nat := 255

/-- The most bytes of a path. -/
def pathLimit : Nat := 4095

/-- A disk that holds nothing. -/
def empty : Disk := ⟨[], []⟩

/-- Whether a directory is at a location. The top is one. -/
def isDirectory (d : Disk) (l : Location) : Bool := l.isEmpty || d.directories.contains l

/-- The content of the file at a location. -/
def content? (d : Disk) (l : Location) : Option Bytes := d.files.lookup l

/-- Follows names from a location. Only a directory is gone through. -/
def follow (d : Disk) (l : Location) : List String → Except SystemError Location
  | [] => .ok l
  | name :: rest =>
    if ! d.isDirectory l then
      .error (if (d.content? l).isSome then .notDirectory else .notFound)
    else if name = "." then d.follow l rest
    else if name = ".." then d.follow l.dropLast rest
    else if nameLimit < name.utf8ByteSize then .error .nameTooLong
    else d.follow (l ++ [name]) rest

/-- The names of a path that may be followed. -/
def namesOf (path : String) : Except SystemError (List String) :=
  if path.toList.contains '\x00' then .error .nulInPath
  else if path = "" then .error .notFound
  else if pathLimit < path.utf8ByteSize then .error .nameTooLong
  else .ok (Path.names path)

/-- The location that a path leads to. Whether anything is there is not asked of its last name. -/
def locate (d : Disk) (path : String) : Except SystemError Location := do
  d.follow [] (← namesOf path)

/-- Whether a path asks for a directory by ending in a slash. -/
def endsInSlash (path : String) : Bool := path.toList.getLast? = some '/'

/-- Puts a file at a location, in the place of the one that is there. -/
def put (d : Disk) (l : Location) (bytes : Bytes) : Disk :=
  { d with files := (l, bytes) :: d.files.filter fun (other, _) => other ≠ l }

/-- The content of the file that a path leads to. -/
def read (d : Disk) (path : String) : Except SystemError Bytes := do
  let l ← d.locate path
  if d.isDirectory l then throw .isDirectory
  match d.content? l with
  | none => throw .notFound
  | some bytes => if endsInSlash path then throw .notDirectory else return bytes

/-- The location of the file that a path would write to. The last name of a path that asks for a
directory is not looked at, but those in front of it have to lead to one. -/
def target (d : Disk) (path : String) : Except SystemError Location := do
  let names ← namesOf path
  if endsInSlash path then
    let _ ← d.follow [] (names.dropLast ++ ["."])
    throw .isDirectory
  let l ← d.follow [] names
  if d.isDirectory l then throw .isDirectory
  return l

/-- Adds the directories that names lead through from a location. -/
def addNames (d : Disk) (l : Location) : List String → Disk
  | [] => d
  | name :: rest =>
    if name = "." then d.addNames l rest
    else if name = ".." then d.addNames l.dropLast rest
    else
      let l := l ++ [name]
      let d := if d.isDirectory l then d else { d with directories := d.directories ++ [l] }
      d.addNames l rest

/-- Adds the directory that a path leads to, and those on the way. -/
def addDirectory (d : Disk) (path : String) : Disk := d.addNames [] (Path.names path)

/-- Writes a file, and leaves the disk as it is when it cannot. -/
def save (path : String) (bytes : Bytes) (d : Disk) : Except SystemError Unit × Disk :=
  match d.target path with
  | .ok l => (.ok (), d.put l bytes)
  | .error e => (.error e, d)

instance : FileSystem (StateM Disk) where
  readFile path := fun d => (d.read path, d)
  createFile path := save path []
  writeFile path bytes := save path bytes

end Disk

end Acutance
