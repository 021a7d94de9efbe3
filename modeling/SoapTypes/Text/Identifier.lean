/-!
# Identifiers

The names that a declaration file can hold without quotes, and the classes of characters that they
are made of. All classes are ASCII.

Two of the tests, `isBare` and `isPlainElement`, look at a text with one final line break taken
off, so a name with a line break behind it passes too.
-/

namespace SoapTypes.Text

/-- An ASCII letter. -/
def isLetter (c : Char) : Bool := ('a' ≤ c && c ≤ 'z') || ('A' ≤ c && c ≤ 'Z')

/-- An ASCII digit. -/
def isAsciiDigit (c : Char) : Bool := '0' ≤ c && c ≤ '9'

/-- A character that can begin an identifier. -/
def isIdentifierStart (c : Char) : Bool := isLetter c || c == '_' || c == '$'

/-- A character that can stand inside an identifier. -/
def isIdentifierPart (c : Char) : Bool := isIdentifierStart c || isAsciiDigit c

/-- An identifier: a start and any number of parts. -/
def isIdentifier : List Char → Bool
  | [] => false
  | c :: cs => isIdentifierStart c && cs.all isIdentifierPart

/-- A list of characters without the line break that may end it. -/
def withoutFinalBreak (cs : List Char) : List Char :=
  if cs.getLast? = some '\n' then cs.dropLast else cs

/-- A property name that is written as it is: an identifier, one final line break aside. -/
def isBare (name : String) : Bool := isIdentifier (withoutFinalBreak name.toList)

/-- A type that takes an array suffix: letters, digits and dots, at least one of them, one final
line break aside. -/
def isPlainElement (type : String) : Bool :=
  match withoutFinalBreak type.toList with
  | [] => false
  | cs => cs.all fun c => isLetter c || isAsciiDigit c || c == '.'

/-- A character of the names that schema declarations have. -/
def isDeclaredNamePart (c : Char) : Bool := isLetter c || isAsciiDigit c || c == '_'

/-- The declared form of a name: every character that cannot stand in one becomes `_`. -/
def declaredName (name : String) : String :=
  String.ofList (name.toList.map fun c => if isDeclaredNamePart c then c else '_')

@[simp] theorem toList_declaredName (name : String) :
    (declaredName name).toList =
      name.toList.map fun c => if isDeclaredNamePart c then c else '_' := by
  simp [declaredName]

/-- A declared name holds only letters, digits and `_`. -/
theorem isDeclaredNamePart_of_mem_declaredName {name : String} {c : Char}
    (h : c ∈ (declaredName name).toList) : isDeclaredNamePart c = true := by
  rw [toList_declaredName, List.mem_map] at h
  obtain ⟨a, -, rfl⟩ := h
  by_cases ha : isDeclaredNamePart a = true
  · rw [if_pos ha]; exact ha
  · rw [if_neg ha]; rfl

end SoapTypes.Text
