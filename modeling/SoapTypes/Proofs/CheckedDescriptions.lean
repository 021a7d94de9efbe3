import SoapTypes.Catalog.Output
import SoapTypes.Files.Document
import SoapTypes.Proofs.BuildIntoCatalog
import SoapTypes.Proofs.GeneratedCatalogs
import SoapTypes.Proofs.UncheckedBuilds

/-!
# Descriptions that were checked

The check of a description reads a document from top to bottom. It wants objects everywhere but at
the leaves of the field trees, which are texts, and stops at the first value that is no object.

* `Description.Described` is the form of the documents that pass.
* `Description.required` lists the values that have to be objects, in document order.
* `Description.checks_decode`: the check passes if all of these are objects and otherwise names the
  first one that is none.
-/

namespace SoapTypes

namespace Json

/-- Whether a value is an object. -/
def isObject (value : Json) : Bool := value.members?.isSome

/-- A field of a tree: a text or an object of fields. -/
inductive IsField : Json → Prop where
  | text (label : String) : IsField (.text label)
  | tree {members : List (String × Json)} (h : ∀ member ∈ members, IsField member.2) :
    IsField (.object members)

/-- An object with values of some form. -/
def IsObjectOf (form : Json → Prop) (value : Json) : Prop :=
  ∃ members, value = .object members ∧ ∀ member ∈ members, form member.2

/-- An object of which each of the two directions is missing, null or a tree of fields. -/
def IsOperation (value : Json) : Prop :=
  ∃ members, value = .object members ∧ ∀ direction ∈ [Operation.inputKey, Operation.outputKey],
    Entries.value? members direction = none ∨ Entries.value? members direction = some .null ∨
      ∃ tree, Entries.value? members direction = some tree ∧ tree.IsObjectOf IsField

end Json

/-- A document of services with their endpoints and the operations of these. -/
def Description.Described (document : List (String × Json)) : Prop :=
  ∀ service ∈ document, service.2.IsObjectOf (Json.IsObjectOf Json.IsOperation)

/-! ### The values that have to be objects -/

/-- A value that has to be an object at a path, and then what has to be one inside it. -/
def requiredObject (inside : List (String × Json) → List (String × Json)) (path : String)
    (value : Json) : List (String × Json) :=
  (path, value) :: inside (value.members?.getD [])

namespace FieldTree

mutual

/-- The values of a field that have to be objects, each with its path: all but the texts. -/
def required (path : String) : Json → List (String × Json)
  | .text _ => []
  | .object members => (path, .object members) :: requiredIn path members
  | value => [(path, value)]

/-- The values of the fields of an object that have to be objects. -/
def requiredIn (path : String) : List (String × Json) → List (String × Json)
  | [] => []
  | (key, value) :: members => required (memberPath path key) value ++ requiredIn path members

end

end FieldTree

namespace Operation

/-- The values of a direction that have to be objects: none if it is missing or null. -/
def requiredOf (path : String) (members : List (String × Json)) (direction : String) :
    List (String × Json) :=
  match Entries.value? members direction with
  | none => []
  | some .null => []
  | some tree =>
    requiredObject (FieldTree.requiredIn (memberPath path direction)) (memberPath path direction)
      tree

/-- The values of an operation that have to be objects, those of the input first. -/
def required (path : String) : Json → List (String × Json) :=
  requiredObject (fun members => requiredOf path members inputKey ++
    requiredOf path members outputKey) path

end Operation

/-- The values of the members of an object that have to be objects. -/
def requiredEach (path : String → String) (inner : String → Json → List (String × Json))
    (members : List (String × Json)) : List (String × Json) :=
  members.flatMap fun member => inner (path member.1) member.2

/-- The values of the operations of an endpoint that have to be objects. -/
def Operations.required (path : String) : Json → List (String × Json) :=
  requiredObject (requiredEach (memberPath path) Operation.required) path

namespace Description

/-- The values of a service that have to be objects. -/
def requiredService (path : String) : Json → List (String × Json) :=
  requiredObject (requiredEach (memberPath path) Operations.required) path

/-- The values of a document that have to be objects, each with its path, in document order. -/
def required (document : List (String × Json)) : List (String × Json) :=
  requiredEach id requiredService document

end Description

/-! ### Checks -/

/-- The fault at the first of some values that is no object. -/
def misplaced? (values : List (String × Json)) : Option Misplaced :=
  (values.find? fun entry => !entry.2.isObject).map fun entry =>
    ⟨entry.1, .object, entry.2.typeName⟩

theorem misplaced?_append (values more : List (String × Json)) :
    misplaced? (values ++ more) = (misplaced? values).or (misplaced? more) := by
  rw [misplaced?, List.find?_append, Option.map_or, misplaced?, misplaced?]

theorem misplaced?_eq_none_iff {values : List (String × Json)} :
    misplaced? values = none ↔ ∀ entry ∈ values, entry.2.isObject = true := by
  simp [misplaced?]

/-- A reader gives a result if some values are all objects, and otherwise fails at the first one
that is none. -/
def Checks {α : Type} (outcome : Except Misplaced α) (values : List (String × Json)) : Prop :=
  (misplaced? values = none ∧ ∃ result, outcome = .ok result) ∨
    ∃ misplaced, misplaced? values = some misplaced ∧ outcome = .error misplaced

namespace Checks

variable {α β : Type} {outcome : Except Misplaced α} {values more : List (String × Json)}

theorem ok (result : α) : Checks (.ok result) [] := .inl ⟨rfl, result, rfl⟩

theorem bind {f : α → Except Misplaced β} (h : Checks outcome values)
    (hf : ∀ result, Checks (f result) more) : Checks (outcome >>= f) (values ++ more) := by
  rw [Checks, misplaced?_append]
  rcases h with ⟨hn, result, rfl⟩ | ⟨misplaced, hs, rfl⟩
  · rw [hn, Option.none_or]
    exact hf result
  · rw [hs, Option.some_or]
    exact .inr ⟨misplaced, rfl, rfl⟩

theorem map (h : Checks outcome values) (f : α → β) : Checks (outcome.map f) values := by
  rcases h with ⟨hn, result, rfl⟩ | ⟨misplaced, hs, rfl⟩
  · exact .inl ⟨hn, f result, rfl⟩
  · exact .inr ⟨misplaced, hs, rfl⟩

/-- An object is read by its members. -/
theorem object {f : List (String × Json) → Except Misplaced α}
    {inside : List (String × Json) → List (String × Json)}
    (hf : ∀ members, Checks (f members) (inside members)) (path : String) (value : Json) :
    Checks (expectObject path value >>= f) (requiredObject inside path value) := by
  cases value with
  | object members => exact hf members
  | _ => exact .inr ⟨_, rfl, rfl⟩

/-- The members of an object are read one after the other. -/
theorem decodeEach {path : String → String} {read : String → Json → Except Misplaced α}
    {inner : String → Json → List (String × Json)}
    (h : ∀ path value, Checks (read path value) (inner path value))
    (members : List (String × Json)) :
    Checks (SoapTypes.decodeEach path read members) (requiredEach path inner members) := by
  induction members with
  | nil => exact ok []
  | cons member members ih =>
    obtain ⟨key, value⟩ := member
    exact (h (path key) value).bind fun first => ih.map fun others => (key, first) :: others

end Checks

namespace FieldTree

mutual

theorem checks_decode (path : String) : ∀ value, Checks (decode path value) (required path value)
  | .text label => .ok (leaf label)
  | .object members => by
    rw [decode, required]
    exact (checks_decodeMembers path members).map branch
  | .null => .inr ⟨_, rfl, rfl⟩
  | .bool _ => .inr ⟨_, rfl, rfl⟩
  | .integer _ => .inr ⟨_, rfl, rfl⟩
  | .real _ => .inr ⟨_, rfl, rfl⟩
  | .array _ => .inr ⟨_, rfl, rfl⟩

theorem checks_decodeMembers (path : String) :
    ∀ members, Checks (decodeMembers path members) (requiredIn path members)
  | [] => .ok []
  | (key, value) :: members => by
    have hfirst := checks_decode (memberPath path key) value
    have hothers := checks_decodeMembers path members
    have h := hfirst.bind fun tree => hothers.map fun trees => (key, tree) :: trees
    rw [requiredIn, decodeMembers]
    cases hd : decode (memberPath path key) value with
    | error misplaced => rwa [hd] at h
    | ok tree => rwa [hd] at h

end

end FieldTree

namespace Operation

theorem checks_decodeDirection (path : String) (members : List (String × Json))
    (direction : String) :
    Checks (decodeDirection path members direction) (requiredOf path members direction) := by
  unfold decodeDirection requiredOf
  cases Entries.value? members direction with
  | none => exact .ok []
  | some value =>
    have h := Checks.object (FieldTree.checks_decodeMembers (memberPath path direction))
      (memberPath path direction) value
    cases value with
    | null => exact .ok []
    | _ => exact h

theorem checks_decode (path : String) (value : Json) :
    Checks (decode path value) (required path value) := by
  refine Checks.object (fun members => ?_) path value
  have hinput := checks_decodeDirection path members inputKey
  have houtput := checks_decodeDirection path members outputKey
  exact hinput.bind fun input => houtput.map (Operation.mk input)

end Operation

theorem Operations.checks_decode (path : String) (value : Json) :
    Checks (Operations.decode path value) (Operations.required path value) :=
  Checks.object (Checks.decodeEach Operation.checks_decode) path value

namespace Description

theorem checks_decodeService (path : String) (value : Json) :
    Checks (decodeService path value) (requiredService path value) :=
  Checks.object (Checks.decodeEach Operations.checks_decode) path value

/-- **The check of a description passes if the values that have to be objects are**, and otherwise
fails at the first one that is none. -/
theorem checks_decode (document : List (String × Json)) :
    Checks (decode document) (required document) :=
  Checks.decodeEach checks_decodeService document

end Description

/-! ### The form of the documents that pass -/

/-- Some values are all objects. -/
def AllObjects (values : List (String × Json)) : Prop := ∀ entry ∈ values, entry.2.isObject = true

theorem allObjects_append {values more : List (String × Json)} :
    AllObjects (values ++ more) ↔ AllObjects values ∧ AllObjects more := List.forall_mem_append

theorem allObjects_requiredObject {inside : List (String × Json) → List (String × Json)}
    {path : String} {value : Json} :
    AllObjects (requiredObject inside path value) ↔
      ∃ members, value = .object members ∧ AllObjects (inside members) := by
  rw [requiredObject, AllObjects, List.forall_mem_cons]
  cases value with
  | object members =>
    simp [Json.isObject, Json.members?, AllObjects]
  | _ => simp [Json.isObject, Json.members?]

theorem allObjects_requiredEach {path : String → String}
    {inner : String → Json → List (String × Json)} {form : Json → Prop}
    (h : ∀ path value, AllObjects (inner path value) ↔ form value)
    {members : List (String × Json)} :
    AllObjects (requiredEach path inner members) ↔ ∀ member ∈ members, form member.2 := by
  induction members with
  | nil => simp [AllObjects, requiredEach]
  | cons member members ih =>
    rw [requiredEach, List.flatMap_cons, allObjects_append, List.forall_mem_cons, h]
    exact and_congr_right fun _ => ih

/-- An object of values of some form, by the values that have to be objects. -/
theorem allObjects_requiredObject_each {path : String → String}
    {inner : String → Json → List (String × Json)} {form : Json → Prop}
    (h : ∀ path value, AllObjects (inner path value) ↔ form value) {outer : String} {value : Json} :
    AllObjects (requiredObject (requiredEach path inner) outer value) ↔ value.IsObjectOf form := by
  simp only [allObjects_requiredObject, allObjects_requiredEach h, Json.IsObjectOf]

namespace FieldTree

mutual

theorem allObjects_required (path : String) :
    ∀ value, AllObjects (required path value) ↔ value.IsField
  | .text label => iff_of_true (by simp [required, AllObjects]) (.text label)
  | .object members => by
    rw [required, AllObjects, List.forall_mem_cons]
    refine (and_iff_right rfl).trans ((allObjects_requiredIn path members).trans ?_)
    constructor
    · exact .tree
    · rintro (_ | h)
      exact h
  | .null => iff_of_false (by simp [required, AllObjects, Json.isObject, Json.members?]) nofun
  | .bool _ => iff_of_false (by simp [required, AllObjects, Json.isObject, Json.members?]) nofun
  | .integer _ => iff_of_false (by simp [required, AllObjects, Json.isObject, Json.members?]) nofun
  | .real _ => iff_of_false (by simp [required, AllObjects, Json.isObject, Json.members?]) nofun
  | .array _ => iff_of_false (by simp [required, AllObjects, Json.isObject, Json.members?]) nofun

theorem allObjects_requiredIn (path : String) :
    ∀ members, AllObjects (requiredIn path members) ↔ ∀ member ∈ members, member.2.IsField
  | [] => by simp [requiredIn, AllObjects]
  | (key, value) :: members => by
    rw [requiredIn, allObjects_append, List.forall_mem_cons, allObjects_required,
      allObjects_requiredIn path members]

end

end FieldTree

theorem Operation.allObjects_requiredOf {path direction : String}
    {members : List (String × Json)} :
    AllObjects (requiredOf path members direction) ↔
      Entries.value? members direction = none ∨ Entries.value? members direction = some .null ∨
        ∃ tree, Entries.value? members direction = some tree ∧ tree.IsObjectOf Json.IsField := by
  unfold requiredOf
  cases Entries.value? members direction with
  | none => simp [AllObjects]
  | some value =>
    have h : AllObjects (requiredObject (FieldTree.requiredIn (memberPath path direction))
        (memberPath path direction) value) ↔ value.IsObjectOf Json.IsField := by
      simp only [allObjects_requiredObject, FieldTree.allObjects_requiredIn, Json.IsObjectOf]
    cases value with
    | null => simp [AllObjects]
    | _ => simpa using h

theorem Operation.allObjects_required (path : String) (value : Json) :
    AllObjects (required path value) ↔ value.IsOperation := by
  simp only [required, allObjects_requiredObject, allObjects_append, allObjects_requiredOf,
    Json.IsOperation, List.forall_mem_cons, List.not_mem_nil, false_implies, implies_true, and_true]

theorem Operations.allObjects_required (path : String) (value : Json) :
    AllObjects (required path value) ↔ value.IsObjectOf Json.IsOperation :=
  allObjects_requiredObject_each Operation.allObjects_required

theorem Description.allObjects_requiredService (path : String) (value : Json) :
    AllObjects (requiredService path value) ↔ value.IsObjectOf (Json.IsObjectOf Json.IsOperation) :=
  allObjects_requiredObject_each Operations.allObjects_required

/-- The documents of the right form are those in which all values are objects that have to be. -/
theorem Description.allObjects_required (document : List (String × Json)) :
    AllObjects (required document) ↔ Described document :=
  allObjects_requiredEach allObjects_requiredService

/-! ### What passes can be built -/

namespace Catalog

/-- A built catalog has an output file for each endpoint of its description. -/
theorem exists_output_of_build {options : Options} {description : Description} {catalog : Catalog}
    (hd : description.Keyed) (hb : (build options description empty).outcome = .ok catalog)
    {service endpoint : String} (hat : (Table.at? description service endpoint).isSome = true) :
    ∃ output ∈ catalog.outputs, output.file = endpointFile service endpoint := by
  obtain ⟨operations, hops⟩ := Option.isSome_iff_exists.1 hat
  have hfile := ((builtFrom_of_build hd hb).filled service endpoint operations hops).files
  exact ⟨_, endpointOutput_mem_outputs hfile, rfl⟩

end Catalog

namespace Description

/-- The wording of a fault at a value that has to be an object. -/
theorem message_misplaced_object (file path found : String) :
    (LoadFault.misplaced file ⟨path, .object, found⟩).message =
      "'" ++ file ++ "': " ++ path ++ " must be a JSON object, got " ++ found := by
  have hphrase : " must be a JSON " ++ "object" ++ ", got " = " must be a JSON object, got " := by
    decide
  show "'" ++ file ++ "': " ++ path ++ " must be a JSON " ++ "object" ++ ", got " ++ found = _
  rw [← hphrase]
  simp only [String.append_assoc]

/-- **The check of a description accepts exactly what can be built.** It passes if the document has
the form of a description, and otherwise there is a load fault, which names the first value in
document order that has to be an object and is none, by its path and its type. What passes is built
from nothing, decoded or as it stands, with any options, and each endpoint gets its file. -/
theorem check_passes_iff_described (document : List (String × Json)) :
    ((∃ description, decode document = .ok description) ↔ Described document) ∧
    (∀ file, ¬ Described document →
      ∃ path value,
        ((required document).find? fun entry => !entry.2.isObject) = some (path, value) ∧
        Document.checked file (decode document) =
          .error (.load (.misplaced file ⟨path, .object, value.typeName⟩)) ∧
        (Fault.load (.misplaced file ⟨path, .object, value.typeName⟩)).message =
          "'" ++ file ++ "': " ++ path ++ " must be a JSON object, got " ++ value.typeName) ∧
    ∀ description, decode document = .ok description → ∀ options,
      Catalog.buildUnchecked options (.object document) Catalog.empty =
        Catalog.build options description Catalog.empty ∧
      ∃ catalog, (Catalog.build options description Catalog.empty).outcome = .ok catalog ∧
        (description.Keyed → ∀ service endpoint,
          (Table.at? description service endpoint).isSome = true →
            ∃ output ∈ catalog.outputs, output.file = Catalog.endpointFile service endpoint) := by
  have hform : misplaced? (required document) = none ↔ Described document :=
    misplaced?_eq_none_iff.trans (allObjects_required document)
  refine ⟨?_, fun file hnot => ?_, fun description hd options => ?_⟩
  · rw [← hform]
    rcases checks_decode document with ⟨hn, description, hd⟩ | ⟨misplaced, hs, hd⟩
    · exact iff_of_true ⟨description, hd⟩ hn
    · exact iff_of_false (by simp [hd]) (by simp [hs])
  · rw [← hform] at hnot
    rcases checks_decode document with ⟨hn, -⟩ | ⟨misplaced, hs, hd⟩
    · exact absurd hn hnot
    · obtain ⟨⟨path, value⟩, hfirst, rfl⟩ := Option.map_eq_some_iff.1 hs
      exact ⟨path, value, hfirst, by rw [hd]; rfl, message_misplaced_object file path _⟩
  · obtain ⟨catalog, hb, -⟩ := Catalog.inStep_empty.build options description
    exact ⟨Catalog.buildUnchecked_of_decode hd options Catalog.empty, catalog, hb,
      fun hk service endpoint hat => Catalog.exists_output_of_build hk hb hat⟩

/-- A directory with an operation whose input is a tree and whose output is null. -/
def writtenDirectory (street : Json) : List (String × Json) :=
  [("Directory", .object [("Book", .object [("Find", .object [
    ("output", .null), ("input", .object [("address", .object [("street", street)])])])])])]

/-- With a text at the leaf the directory passes and is built, with a number the check names the
leaf. -/
theorem check_passes_iff_described_directory :
    (∃ description, decode (writtenDirectory (.text "street|xs:string")) = .ok description ∧
      ∃ catalog, (Catalog.build {} description Catalog.empty).outcome = .ok catalog ∧
        ∃ output ∈ catalog.outputs, output.file = "Directory/Book") ∧
    Document.checked "d.json" (decode (writtenDirectory (.integer 7))) =
      .error (.load (.misplaced "d.json"
        ⟨"Directory.Book.Find.input.address.street", .object, "int"⟩)) := by
  obtain ⟨-, -, hbuilt⟩ := check_passes_iff_described (writtenDirectory (.text "street|xs:string"))
  obtain ⟨hpass, hfails, -⟩ := check_passes_iff_described (writtenDirectory (.integer 7))
  constructor
  · refine ⟨_, rfl, ?_⟩
    obtain ⟨-, catalog, hb, hfiles⟩ := hbuilt _ rfl {}
    exact ⟨catalog, hb, hfiles (by decide) "Directory" "Book" rfl⟩
  · have hnot : ¬ Described (writtenDirectory (.integer 7)) := by
      rw [← hpass]
      rintro ⟨description, hd⟩
      cases hd
    obtain ⟨path, value, hfirst, hfault, -⟩ := hfails "d.json" hnot
    cases hfirst
    exact hfault

end Description

end SoapTypes
