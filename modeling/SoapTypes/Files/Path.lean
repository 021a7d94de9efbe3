import SoapTypes.Text.Pieces

/-!
# Paths

Paths are texts with `/` between their names. `Path.join` puts a name behind a path, `Path.parent`
takes the last name off. A path leads to a place, which is given relative to the working directory.
On a disk it leads to a spot, once the working directory is known.
-/

namespace SoapTypes

namespace Path

/-- Whether a path begins at the root. -/
def isAbsolute (path : String) : Bool := path.toList.head? == some '/'

/-- Whether a path ends in a slash. -/
def endsInSlash (path : String) : Bool := path.toList.getLast? == some '/'

/-- A path with another one behind it. An absolute one replaces what is in front of it, and an empty
one adds the slash alone. -/
def join (path more : String) : String :=
  if isAbsolute more then more
  else if path.isEmpty || endsInSlash path then path ++ more
  else path ++ "/" ++ more

/-- A path with several others behind it. -/
def joinAll (path : String) (more : List String) : String := more.foldl join path

/-- The directory of a file: the path up to its last slash, without slashes at its end unless it
consists of them. -/
def parent (path : String) : String :=
  let head := (path.toList.reverse.dropWhile fun c => c != '/').reverse
  let trimmed := (head.reverse.dropWhile fun c => c == '/').reverse
  String.ofList (if trimmed.isEmpty then head else trimmed)

end Path

/-- A spot on a disk: the names that lead down to it from the root, the last of which comes first. -/
abbrev Spot := List String

/-- A place: so many directories up from the working directory, and then down by names, the last of
which comes first. -/
@[ext] structure Place where
  up : Nat := 0
  names : List String := []
  deriving DecidableEq, Repr, Inhabited

namespace Place

/-- Follow a name from a directory. -/
def follow (here : Place) (name : String) : Place :=
  if name = "" ∨ name = "." then here
  else if name = ".." then
    match here.names with
    | [] => ⟨here.up + 1, []⟩
    | _ :: names => ⟨here.up, names⟩
  else ⟨here.up, name :: here.names⟩

/-- The spots that some names lead through, one by one, from a place that is taken from the root. -/
def trail (here : Place) : List String → List Spot
  | [] => []
  | name :: names => (here.follow name).names :: trail (here.follow name) names

end Place

namespace Path

/-- The place that a path leads to from the working directory. -/
def place (path : String) : Place := (Text.allPieces '/' path).foldl Place.follow {}

/-- Where a path begins on a disk: at the root or in the working directory `here`. There is nothing
above the root, so that the steps up from there are counted and do not matter. -/
def start (here : Spot) (path : String) : Place := ⟨0, if isAbsolute path then [] else here⟩

/-- The spot that a path leads to. -/
def spot (here : Spot) (path : String) : Spot :=
  ((Text.allPieces '/' path).foldl Place.follow (start here path)).names

/-- The path that leads straight down to a spot. -/
def ofSpot (spot : Spot) : String := "/" ++ Text.joinWith "/" spot.reverse

/-- The names on the way to a file. -/
def directories (path : String) : List String :=
  (Text.allPieces '/' path).dropLast.filter fun name => !name.isEmpty

/-- The spots of the directories on the way to a file. -/
def directorySpots (here : Spot) (path : String) : List Spot :=
  (start here path).trail (directories path)

/-- The name of a file in its directory. -/
def fileName (path : String) : String := (Text.allPieces '/' path).getLastD ""

end Path

end SoapTypes
