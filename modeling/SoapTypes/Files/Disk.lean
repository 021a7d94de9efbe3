import SoapTypes.Files.Path

/-!
# Disks

A disk is what its spots hold, together with the working directory. A file is written by
`Disk.write`: the directories on the way to it are made where they are missing, and then it is put
into the last of them, over a file that is there already. An obstacle ends this: a file that stands
where a directory is needed, a directory in the place of the file, or a name that is none. Links
between files, permissions, the length of names and the size of the disk are not considered.
-/

namespace SoapTypes

/-- What a path leads to. -/
inductive Lookup where
  | missing
  | directory
  | file (bytes : ByteArray)
  deriving Inhabited

/-- What the paths of some files lead to. -/
abbrev Files := String → Lookup

/-- What keeps a file from being written. -/
inductive Obstacle where
  /-- The path gives no directory to put the file into. -/
  | noDirectory
  /-- A name on the way has a NUL in it. -/
  | nul
  /-- What should be the directory of the file is a file itself. -/
  | fileAsDirectory
  /-- On the way to the directory of the file something that should be a directory is a file. -/
  | fileOnTheWay
  /-- A directory stands where the file should. -/
  | directoryAsFile
  deriving DecidableEq, Repr

/-- A disk: what its spots hold, and the spot of the working directory. -/
structure Disk where
  here : Spot
  content : Spot → Lookup

namespace Disk

/-- The disk on which paths lead to some files, with a working directory. -/
def ofFiles (files : Files) (here : Spot) : Disk := ⟨here, fun spot => files (Path.ofSpot spot)⟩

/-- Put something at a spot in the place of what is there. -/
def put (disk : Disk) (spot : Spot) (held : Lookup) : Disk :=
  { disk with content := fun other => if other = spot then held else disk.content other }

/-- Whether a text is no name of a file. -/
def isNoName (name : String) : Bool := name.toList.contains '\x00'

/-- What a file is for the names that should lead further from it. The name behind it comes first:
if it is no name, this is noticed before it is followed. -/
def obstacleAtFile : List String → Obstacle
  | [] => .fileAsDirectory
  | name :: _ => if isNoName name then .nul else .fileOnTheWay

/-- Go down from a directory by some names, and make the directories that are missing. -/
def makeDirectories (disk : Disk) (here : Place) : List String → Except Obstacle (Disk × Place)
  | [] => .ok (disk, here)
  | name :: names =>
    if isNoName name then .error .nul
    else
      let next := here.follow name
      match disk.content next.names with
      | .missing => makeDirectories (disk.put next.names .directory) next names
      | .directory => makeDirectories disk next names
      | .file _ => .error (obstacleAtFile names)

/-- Write a text to a file in a directory that is there. -/
def writeInto (disk : Disk) (directory : Place) (name text : String) : Except Obstacle Disk :=
  if isNoName name then .error .nul
  else
    let spot := (directory.follow name).names
    match disk.content spot with
    | .directory => .error .directoryAsFile
    | _ => .ok (disk.put spot (.file text.toUTF8))

/-- Write a text to the file at a path. -/
def write (disk : Disk) (path text : String) : Except Obstacle Disk :=
  if (Path.parent path).isEmpty then .error .noDirectory
  else
    match disk.makeDirectories (Path.start disk.here path) (Path.directories path) with
    | .error obstacle => .error obstacle
    | .ok (disk, directory) => disk.writeInto directory (Path.fileName path) text

end Disk

end SoapTypes
