import SoapTypes.Decimal.Shortest
import SoapTypes.Entries
import SoapTypes.Text.Display
import SoapTypes.Text.Pieces

/-!
# JSON values

Values of a document. A number without a fraction and an exponent is an integer of any size, every
other one is a number of the 64-bit binary format. Objects keep the order of their members.
-/

namespace SoapTypes

/-- A value of a JSON document. -/
inductive Json where
  | null
  | bool (value : Bool)
  | integer (value : Int)
  | real (value : Binary64)
  | text (value : String)
  | array (items : List Json)
  | object (members : List (String × Json))
  deriving Inhabited

namespace Json

/-- The word for the type of a value in a diagnostic. -/
def typeName : Json → String
  | null => "NoneType"
  | bool _ => "bool"
  | integer _ => "int"
  | real _ => "float"
  | text _ => "str"
  | array _ => "list"
  | object _ => "dict"

/-- A value that counts as absent: null, false, zero, and whatever is empty. -/
def isBlank : Json → Bool
  | null => true
  | bool value => !value
  | integer value => value == 0
  | real value => value.isZero
  | text value => value.isEmpty
  | array items => items.isEmpty
  | object members => members.isEmpty

/-- A number is written positionally when its leading digit stands for a power of ten from `-4` to
`15`; exponents have two digits at least. -/
def numberLayout : Decimal.Layout where
  positionalFrom := -4
  positionalBelow := 16
  exponentWidth := 2

/-- A number as a diagnostic shows it. -/
def displayNumber : Binary64 → String
  | .nan => "nan"
  | .infinite negative => if negative then "-inf" else "inf"
  | .finite negative m q =>
    (if negative then "-" else "") ++
      (if m = 0 then "0.0" else numberLayout.render (Decimal.shortest m q))

mutual

/-- A value as a diagnostic shows it. -/
def display : Json → String
  | null => "None"
  | bool value => if value then "True" else "False"
  | integer value => toString value
  | real value => displayNumber value
  | text value => Text.display value
  | array items => "[" ++ Text.joinWith ", " (displayItems items) ++ "]"
  | object members => "\x7b" ++ Text.joinWith ", " (displayMembers members) ++ "\x7d"

/-- The items of an array as a diagnostic shows them. -/
def displayItems : List Json → List String
  | [] => []
  | item :: items => display item :: displayItems items

/-- The members of an object as a diagnostic shows them. -/
def displayMembers : List (String × Json) → List String
  | [] => []
  | (name, value) :: members =>
    (Text.display name ++ ": " ++ display value) :: displayMembers members

end

/-- A value inside a running text: a text stands for itself, all else is shown as it is alone. -/
def asText : Json → String
  | text value => value
  | value => value.display

/-- The members of an object. -/
def members? : Json → Option (List (String × Json))
  | object members => some members
  | _ => none

end Json

end SoapTypes
