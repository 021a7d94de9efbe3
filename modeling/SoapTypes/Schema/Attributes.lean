import SoapTypes.Json.Value

/-!
# Attributes of schema nodes

The attributes of a node keep the order in which their names first came, and a name that comes again
gets a new value. As a rule names are texts; where attributes are written as a sequence of entries,
a name can be any value without parts. Numbers that are equal are one name, and the truth values
count as one and zero; the name that came first stays.

* `Attributes.value?_put` says what `put` does to the attributes with a text as their name.
-/

namespace SoapTypes.Schema

/-- The name of an attribute. -/
inductive AttributeName where
  | text (name : String)
  | null
  | bool (value : Bool)
  | integer (value : Int)
  | real (value : Binary64)
  deriving DecidableEq, Repr

namespace AttributeName

/-- The name that a value without parts is. -/
def ofJson? : Json → Option AttributeName
  | .text name => some (text name)
  | .null => some null
  | .bool value => some (bool value)
  | .integer value => some (integer value)
  | .real value => some (real value)
  | .array _ => none
  | .object _ => none

/-- A name as a value. -/
def toJson : AttributeName → Json
  | text name => .text name
  | null => .null
  | bool value => .bool value
  | integer value => .integer value
  | real value => .real value

/-- The integer that a name counts as. -/
def integral? : AttributeName → Option Int
  | text _ => none
  | null => none
  | bool value => some (if value then 1 else 0)
  | integer value => some value
  | real value => value.integral?

/-- Whether two names are one: they are equal, or they count as the same integer. -/
def same (a b : AttributeName) : Bool :=
  a = b || (a.integral?.isSome && a.integral? = b.integral?)

@[simp] theorem ofJson?_toJson (name : AttributeName) : ofJson? name.toJson = some name := by
  cases name <;> rfl

@[simp] theorem same_text (a : AttributeName) (name : String) :
    a.same (text name) = decide (a = text name) := by
  have h : (text name).integral? = none := rfl
  unfold same
  rw [h]
  cases a.integral? <;> simp

end AttributeName

/-- The attributes of a node with their values. -/
abbrev Attributes := List (AttributeName × Json)

namespace Attributes

/-- The attributes that the members of an object are. -/
def ofMembers (members : List (String × Json)) : Attributes :=
  members.map fun member => (.text member.1, member.2)

/-- The value of the attribute with a text as its name. -/
def value? : Attributes → String → Option Json
  | [], _ => none
  | (k, v) :: rest, name => if k = .text name then some v else value? rest name

/-- Set the value of an attribute, in its place if it has one and at the end otherwise. -/
def put : Attributes → AttributeName → Json → Attributes
  | [], name, value => [(name, value)]
  | (k, v) :: rest, name, value =>
    if k.same name then (k, value) :: rest else (k, v) :: put rest name value

/-- Set the values of attributes one after the other. -/
def putAll (attributes : Attributes) (more : List (AttributeName × Json)) : Attributes :=
  more.foldl (fun acc entry => acc.put entry.1 entry.2) attributes

/-- Attributes as a diagnostic shows them. -/
def display (attributes : Attributes) : String :=
  "\x7b" ++ Text.joinWith ", " (attributes.map fun entry =>
    entry.1.toJson.display ++ ": " ++ entry.2.display) ++ "\x7d"

@[simp] theorem value?_nil (name : String) : value? [] name = none := rfl

/-- After a `put` the attribute has the new value and every other one the value it had. -/
@[simp] theorem value?_put (attributes : Attributes) (name : String) (value : Json)
    (other : String) :
    (attributes.put (.text name) value).value? other =
      if name = other then some value else attributes.value? other := by
  induction attributes with
  | nil => simp [put, value?]
  | cons entry rest ih =>
    obtain ⟨k, v⟩ := entry
    by_cases hk : k = .text name
    · subst hk; by_cases ho : name = other <;> simp [put, value?, ho]
    · by_cases ho : name = other
      · subst ho; simpa [put, value?, hk] using ih
      · by_cases hko : k = .text other <;> simp_all [put, value?]

end Attributes

end SoapTypes.Schema
