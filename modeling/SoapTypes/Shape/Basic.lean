import SoapTypes.Entries
import SoapTypes.Text.Identifier
import SoapTypes.Text.Indent
import SoapTypes.Text.Pieces
import SoapTypes.Text.Quoted

/-!
# Shapes and their texts

A shape is an object type: field names with resolved leaves, finished texts or shapes again.
`Shape.render` writes it as the body of a declaration, one field a line, each level one step further
to the right. A shape without fields is written with braces alone.
-/

namespace SoapTypes

/-- What stands under a field name. -/
inductive Member where
  /-- A leaf: its comment, and its type with the semicolon behind it. -/
  | leaf (comment : Option String) (type : String)
  /-- A type that is written already, with the semicolon behind it. -/
  | text (type : String)
  /-- An object type of its own. -/
  | nested (members : List (String × Member))
  deriving Inhabited

/-- The fields of an object type in order. -/
abbrev Shape := Entries Member

/-- Which property names stand between quotes. -/
inductive Quoting where
  | asNeeded
  | always
  | never
  deriving DecidableEq, Repr

namespace Shape

/-- A property name as it is written: as needed, only a name that is no identifier is quoted. -/
def propertyName (quoting : Quoting) (name : String) : String :=
  match quoting with
  | .always => Text.quoted name
  | .never => name
  | .asNeeded => if Text.isBare name then name else Text.quoted name

/-- The characters up to the last `<`, or none if there is no `<`. -/
def throughLastBracket (cs : List Char) : List Char :=
  (cs.reverse.dropWhile fun c => c != '<').reverse

/-- A type without the namespace prefix that ends at its first colon; a bracket in front of the
prefix stays. A colon behind a double quote belongs to a literal and ends no prefix. -/
def stripNamespace (type : String) : String :=
  let cs := type.toList
  let before := cs.takeWhile fun c => c != ':'
  match cs.dropWhile fun c => c != ':' with
  | [] => type
  | _ :: behind =>
    if '"' ∈ before then type else String.ofList (throughLastBracket before ++ behind)

/-- The text of an object type from the lines of its fields. -/
def block : List String → String
  | [] => "\x7b\x7d"
  | line :: lines =>
    "\x7b\n" ++ Text.indentStep ++
      Text.joinWith ("\n" ++ Text.indentStep) (line :: lines) ++ "\n\x7d"

mutual

/-- The lines of a field. -/
def memberLines (quoting : Quoting) (name : String) : Member → List String
  | .leaf comment type =>
    let line := propertyName quoting name ++ ": " ++ stripNamespace type
    match comment with
    | none => [line]
    | some comment => if comment.isEmpty then [line] else [comment, line]
  | .text type => [propertyName quoting name ++ ": " ++ type]
  | .nested members =>
    [propertyName quoting name ++ ": " ++ Text.indent (block (lines quoting members)) ++ ";"]

/-- The lines of all fields. -/
def lines (quoting : Quoting) : List (String × Member) → List String
  | [] => []
  | (name, member) :: members => memberLines quoting name member ++ lines quoting members

end

/-- The text of an object type. -/
def render (quoting : Quoting) (shape : Shape) : String := block (lines quoting shape)

@[simp] theorem lines_nil (quoting : Quoting) : lines quoting [] = [] := rfl

@[simp] theorem lines_cons (quoting : Quoting) (name : String) (member : Member)
    (members : List (String × Member)) :
    lines quoting ((name, member) :: members) =
      memberLines quoting name member ++ lines quoting members := rfl

@[simp] theorem memberLines_text (quoting : Quoting) (name type : String) :
    memberLines quoting name (.text type) = [propertyName quoting name ++ ": " ++ type] := rfl

/-- A shape inside another one is written like a shape alone, one step further to the right. -/
@[simp] theorem memberLines_nested (quoting : Quoting) (name : String)
    (members : List (String × Member)) :
    memberLines quoting name (.nested members) =
      [propertyName quoting name ++ ": " ++ Text.indent (render quoting members) ++ ";"] := rfl

@[simp] theorem render_nil (quoting : Quoting) : render quoting [] = "\x7b\x7d" := rfl

end Shape

end SoapTypes
