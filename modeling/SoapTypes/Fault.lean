import SoapTypes.Description
import SoapTypes.Files.Disk
import SoapTypes.Json.Reader
import SoapTypes.Text.Display

/-!
# Faults

Everything that can stop the work, by cause, and the one place where the causes are put into words.
-/

namespace SoapTypes

/-- Why a document cannot be loaded; each cause carries the path of the file as it was given. -/
inductive LoadFault where
  | missing (path : String)
  | directory (path : String)
  | malformed (path : String) (fault : Json.ReadFault) (text : String)
  | notAnObject (path : String) (found : String)
  | misplaced (path : String) (value : Misplaced)
  deriving DecidableEq, Repr

/-- The wording of the form that a value should have. -/
def Container.phrase : Container → String
  | object => "object"
  | array => "array"

/-- The wording of a fault. -/
def LoadFault.message : LoadFault → String
  | missing path => "Input file '" ++ path ++ "' does not exist."
  | directory path =>
    "Could not read '" ++ path ++ "': [Errno 21] Is a directory: " ++ Text.display path
  | malformed path fault text => "Could not read '" ++ path ++ "': " ++ fault.message text
  | notAnObject path found => "'" ++ path ++ "' must contain a JSON object, got " ++ found
  | misplaced path value =>
    "'" ++ path ++ "': " ++ value.path ++ " must be a JSON " ++ value.expected.phrase ++ ", got " ++
      value.found

/-- Why a value is no limit on the number of passes. -/
inductive LimitFault where
  /-- Nothing that could be a number, as a diagnostic shows it. -/
  | notAnInteger (shown : String)
  | belowOne (limit : Int)
  deriving DecidableEq, Repr

/-- The wording of a fault. -/
def LimitFault.message : LimitFault → String
  | notAnInteger shown => "expected an integer, got " ++ shown
  | belowOne limit => "must be at least 1, got " ++ toString limit

/-- The wording of what keeps a file from being written to a path. -/
def Obstacle.message (path : String) : Obstacle → String
  | noDirectory => "no directory can be made for '" ++ path ++ "'"
  | nul => "embedded null byte"
  | fileAsDirectory => "the directory of '" ++ path ++ "' is a file"
  | fileOnTheWay => "the way to '" ++ path ++ "' leads through a file"
  | directoryAsFile => "'" ++ path ++ "' is a directory"

/-- What stops the work. -/
inductive Fault where
  | load (fault : LoadFault)
  /-- The bytes of a file are not UTF-8. -/
  | notUtf8 (path : String)
  /-- A value stands where only an object, or only a text, can be used. -/
  | wrongKind
  /-- A declared name is neither a text nor blank. -/
  | nameNotText
  /-- A value stands where a sequence of values or of entries is needed. -/
  | notASequence
  /-- The name of an attribute is a value with parts. -/
  | nameWithParts
  /-- An entry has another number of parts than a name and a value. -/
  | entryLength (index length : Nat)
  /-- A table of a catalog lacks a service or an endpoint. -/
  | missingEntry
  | limit (fault : LimitFault)
  /-- An infinite number is no limit on the number of passes. -/
  | limitInfinite
  /-- Something was given with nothing as its value, and the value is needed. -/
  | nothingGiven
  /-- Something keeps a file from being written to a path. -/
  | blocked (path : String) (obstacle : Obstacle)
  deriving DecidableEq, Repr

/-- The wording of a fault. -/
def Fault.message : Fault → String
  | load fault => fault.message
  | notUtf8 path => "'" ++ path ++ "' is not UTF-8"
  | wrongKind => "a value has the wrong type"
  | nameNotText => "a declared name is not a text"
  | notASequence => "a value is not a sequence"
  | nameWithParts => "the name of an attribute has parts"
  | entryLength index length =>
    "dictionary update sequence element #" ++ toString index ++ " has length " ++
      toString length ++ "; 2 is required"
  | missingEntry => "a service or an endpoint is missing from a table"
  | limit fault => fault.message
  | limitInfinite => "an infinite number is no limit"
  | nothingGiven => "a value is missing"
  | blocked path obstacle => obstacle.message path

end SoapTypes
