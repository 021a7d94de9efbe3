import SoapTypes.Fault
import SoapTypes.Files.Disk
import SoapTypes.Schema.Basic

/-!
# Loading documents

A document is a file in UTF-8 with one JSON object. Descriptions and schemas are checked as a whole
before anything is made of them. What is said about all files is exact for those that write no half
of a surrogate pair in a string; in the others U+FFFD stands for it.
-/

namespace SoapTypes

namespace Document

/-- A text in which every line break is a single line feed. -/
def normalizeBreaks : List Char → List Char
  | [] => []
  | '\r' :: '\n' :: cs => '\n' :: normalizeBreaks cs
  | c :: cs => (if c = '\r' then '\n' else c) :: normalizeBreaks cs

/-- The members of the object that a text at a path writes. -/
def ofText (path text : String) : Except LoadFault (List (String × Json)) :=
  match Json.read? text with
  | .error fault => .error (.malformed path fault text)
  | .ok (.object members) => .ok members
  | .ok value => .error (.notAnObject path value.typeName)

/-- Load the document at a path. -/
def load (files : Files) (path : String) : Except Fault (List (String × Json)) :=
  match files path with
  | .missing => .error (.load (.missing path))
  | .directory => .error (.load (.directory path))
  | .file bytes =>
    match String.fromUTF8? bytes with
    | none => .error (.notUtf8 path)
    | some text =>
      match ofText path (String.ofList (normalizeBreaks text.toList)) with
      | .error fault => .error (.load fault)
      | .ok members => .ok members

/-- The outcome of a check as an outcome of loading the document at a path. -/
def checked {α : Type} (path : String) : Except Misplaced α → Except Fault α
  | .error misplaced => .error (.load (.misplaced path misplaced))
  | .ok value => .ok value

end Document

/-- Load the description at a path. -/
def Description.load (files : Files) (path : String) : Except Fault Description := do
  Document.checked path (Description.decode (← Document.load files path))

/-- Load the schema at a path; without a path there is none. -/
def Schemas.load (files : Files) (path : Option String) : Except Fault Schemas :=
  match path.bind Text.nonempty? with
  | none => .ok []
  | some path => do
    let document ← Document.load files path
    Document.checked path (Schemas.check document)
    Schemas.ofMembers document

end SoapTypes
