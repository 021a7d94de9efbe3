import SoapTypes.Proofs.LatestEntries
import SoapTypes.Proofs.WrittenLeaves

/-!
# Fields and members

A shape has one member for every field name of its object. The names stand in the order of the
first keys that have them, and each has the member of the last of its keys, so that no key is lost
exactly if no two keys name the same field: `street` and `street[]` do. This is so for the object
that is built, for those in its branches that stand in its shape as they are, and for those of which
only the text is used.

* `FieldTree.objects` are an object of fields and those in its branches.
* `Shape.MemberFor` says what stands for a key: a leaf, or for a branch its shape, a reference to
  it, or the text of an array of it.
* `Shape.MembersOf` says which members a shape has for an object.
* `Shape.membersOf_ofFields` and `Shape.exists_of_liesIn` lead to `Shape.members_at_every_depth`.
-/

namespace SoapTypes

namespace Entries

variable {α : Type} {pairs : List (String × α)}

theorem keys_ofPairs : (ofPairs pairs).keys = (keys pairs).eraseDups := by
  rw [ofPairs, putAll_eq_uniteWith, keys_uniteWith, keys_nil, addNew_nil_eq_eraseDups]

/-- Pairs are a table already if no name stands twice. -/
theorem ofPairs_eq_self_iff : ofPairs pairs = pairs ↔ (keys pairs).Nodup :=
  ⟨fun h => h ▸ distinct_ofPairs pairs, putAll_nil_left⟩

end Entries

namespace FieldTree

/-- The field names of an object in the order of its keys. Two keys can name the same field. -/
def fieldNames (fields : Fields) : List String := (keyed fields).map fun entry => fieldName entry.1

/-- An object of fields and the objects in its branches. -/
def objects (fields : Fields) : List Fields :=
  fields :: (allBranches fields).map Branch.fields

theorem mem_objects_self (fields : Fields) : fields ∈ objects fields := List.mem_cons_self

theorem fields_mem_objects {fields : Fields} {branch : Branch} (h : branch ∈ allBranches fields) :
    branch.fields ∈ objects fields :=
  List.mem_cons_of_mem _ (List.mem_map_of_mem h)

/-- The objects in a branch are objects of what holds it. -/
theorem objects_subset {fields : Fields} {branch : Branch} (h : branch ∈ allBranches fields) :
    objects branch.fields ⊆ objects fields := by
  refine List.cons_subset.2 ⟨fields_mem_objects h, fun object ho => ?_⟩
  obtain ⟨inner, hi, rfl⟩ := List.mem_map.1 ho
  exact fields_mem_objects (allBranches_subset h hi)

end FieldTree

namespace Shape

open FieldTree

/-- The member that is built for a key of an object. -/
def memberOf (known : KnownEnums) (references : References) (fields : Fields) (key : String)
    (tree : FieldTree) : Member :=
  (buildTree known references (targetNamespace? fields) (isArrayKey key) (fieldName key) tree).result

/-- What stands for a key of an object: the type of a leaf, or for a branch its shape, unless it is
shared. Then it is a reference to its text, and an array of branches is a text with the reference or
with the text of the shape as its element. -/
inductive MemberFor (known : KnownEnums) (references : References) (fields : Fields)
    (key : String) : FieldTree → Member → Prop where
  | leaf (label : String) : MemberFor known references fields key (.leaf label)
      (resolveLeaf known (targetNamespace? fields) (isArrayKey key) label)
  | nested {members : Fields} (ha : isArrayKey key = false)
      (hr : references (fieldName key) (render .asNeeded (ofFields known references members)) =
        none) :
      MemberFor known references fields key (.branch members)
        (.nested (ofFields known references members))
  | reference {members : Fields} {reference : String} (ha : isArrayKey key = false)
      (hr : references (fieldName key) (render .asNeeded (ofFields known references members)) =
        some reference) :
      MemberFor known references fields key (.branch members) (.text (reference ++ ";"))
  | arrayOfReference {members : Fields} {reference : String} (ha : isArrayKey key = true)
      (hr : references (fieldName key) (render .asNeeded (ofFields known references members)) =
        some reference) :
      MemberFor known references fields key (.branch members)
        (.text (arrayOf (Text.indent reference) ++ ";"))
  | arrayOfText {members : Fields} (ha : isArrayKey key = true)
      (hr : references (fieldName key) (render .asNeeded (ofFields known references members)) =
        none) :
      MemberFor known references fields key (.branch members)
        (.text (arrayOf (Text.indent (render .asNeeded (ofFields known references members))) ++
          ";"))

/-- A shape has the members of an object of fields: its names in the order in which they come first,
each with the member of the last key that has the name. -/
structure MembersOf (known : KnownEnums) (references : References) (fields : Fields)
    (shape : Shape) : Prop where
  names : shape.keys = (fieldNames fields).eraseDups
  last : ∀ key tree, LastField fields key tree →
    (fieldName key, memberOf known references fields key tree) ∈ shape
  standsFor : ∀ key tree,
    MemberFor known references fields key tree (memberOf known references fields key tree)
  /-- These are one for every key, in the order of the keys, if and only if the keys name different
  fields. -/
  forEachKey : shape = eachField (memberOf known references fields) fields ↔
    (fieldNames fields).Nodup

/-- A shape is another one, or stands under a field in it at some depth. -/
inductive LiesIn (inner : Shape) : Shape → Prop where
  | refl : LiesIn inner inner
  | step {shape : Shape} {name : String} {members : List (String × Member)}
      (hm : (name, .nested members) ∈ shape) (h : LiesIn inner members) : LiesIn inner shape

section Members

variable {known : KnownEnums} {references : References}

theorem keys_eachField {α : Type} (f : String → FieldTree → α) (fields : Fields) :
    Entries.keys (eachField f fields) = fieldNames fields := by
  simp [Entries.keys, eachField, fieldNames]

/-- The member that is built for a key is what stands for it. -/
theorem memberFor_memberOf (fields : Fields) (key : String) (tree : FieldTree) :
    MemberFor known references fields key tree (memberOf known references fields key tree) := by
  cases tree with
  | leaf label => exact .leaf label
  | branch members =>
    rw [memberOf, buildTree_branch]
    cases ha : isArrayKey key <;>
      cases hr : references (fieldName key)
        (render .asNeeded (ofFields known references members))
    · simpa only [branchMember, hr] using MemberFor.nested ha hr
    · simpa only [branchMember, hr] using MemberFor.reference ha hr
    · simpa only [branchMember, hr, Option.getD_none] using MemberFor.arrayOfText ha hr
    · simpa only [branchMember, hr, Option.getD_some] using MemberFor.arrayOfReference ha hr

/-- **The shape of an object has its members.** -/
theorem membersOf_ofFields (fields : Fields) :
    MembersOf known references fields (ofFields known references fields) where
  names := by rw [ofFields_eq_ofPairs, Entries.keys_ofPairs, keys_eachField]
  last key tree h := mem_ofFields_iff.2 ⟨key, tree, h, rfl, rfl⟩
  standsFor := memberFor_memberOf fields
  forEachKey := by
    rw [ofFields_eq_ofPairs, ← keys_eachField (memberOf known references fields) fields]
    exact Entries.ofPairs_eq_self_iff

/-- A member that is a shape is the shape of the branch that it is built from. -/
theorem eq_ofFields_of_nested {targetNamespace : Option String} {array : Bool} {name : String}
    {tree : FieldTree} {members : List (String × Member)}
    (h : (buildTree known references targetNamespace array name tree).result = .nested members) :
    ∃ fields, tree = .branch fields ∧ members = ofFields known references fields := by
  cases tree with
  | leaf label => cases h
  | branch fields =>
    refine ⟨fields, rfl, ?_⟩
    rw [buildTree_branch] at h
    simp only [branchMember] at h
    -- neither a reference nor an array leaves a shape behind
    split at h <;> cases h
    rfl

/-- **What lies in the shape of an object is the shape of an object in its branches.** -/
theorem exists_of_liesIn {inner : Shape} {fields : Fields}
    (h : LiesIn inner (ofFields known references fields)) :
    ∃ object ∈ objects fields, inner = ofFields known references object := by
  generalize hs : ofFields known references fields = shape at h
  induction h generalizing fields with
  | refl => exact ⟨fields, mem_objects_self fields, hs.symm⟩
  | step hm _ ih =>
    subst hs
    obtain ⟨key, tree, hl, rfl, hr⟩ := mem_ofFields_iff.1 hm
    obtain ⟨members, rfl, rfl⟩ := eq_ofFields_of_nested hr
    obtain ⟨object, ho, rfl⟩ := ih rfl
    exact ⟨object, objects_subset (mem_allBranches_of_mem hl.mem hl.isField) ho, rfl⟩

end Members

/-- **Every field name has its member, at every depth.** With any known enumerations, and with the
references of any registry or without references, the shape of an object has the members of the
object. So has each shape that lies in it, for an object in a branch of the fields; and each text of
a branch, by which it is shared or written as the element of an array, is that of a shape with the
members of such an object. -/
theorem members_at_every_depth (known : KnownEnums) (references : References) (fields : Fields) :
    MembersOf known references fields (ofFields known references fields) ∧
    (∀ inner, LiesIn inner (ofFields known references fields) →
      ∃ object ∈ objects fields, inner = ofFields known references object ∧
        MembersOf known references object inner) ∧
    ∀ branch ∈ branchTexts known references fields, ∃ object ∈ objects fields, ∃ shape,
      shape = ofFields known references object ∧ branch.2 = render .asNeeded shape ∧
        MembersOf known references object shape := by
  refine ⟨membersOf_ofFields fields, fun inner hi => ?_, fun branch hb => ?_⟩
  · obtain ⟨object, ho, rfl⟩ := exists_of_liesIn hi
    exact ⟨object, ho, rfl, membersOf_ofFields object⟩
  · rw [branchTexts_eq] at hb
    obtain ⟨branch, hm, rfl⟩ := List.mem_map.1 hb
    exact ⟨branch.fields, fields_mem_objects hm, _, rfl, rfl, membersOf_ofFields branch.fields⟩

/-- An address with an array of lines in it. -/
def address : Fields :=
  [("street", .leaf "street|xs:string"), ("lines[]", .branch [("line", .leaf "line|xs:string")])]

/-- A person with an address, and with an array of orders. -/
def person : Fields :=
  [("name", .leaf "name|xs:string"), ("address", .branch address),
    ("orders[]", .branch [("sku", .leaf "sku|xs:string")])]

/-- The address of a person stands in the shape of the person as it is, and the arrays in both are
written from the shapes of their elements. -/
theorem members_at_every_depth_person :
    let shape := inline [] person
    shape.keys = ["name", "address", "orders"] ∧
      ("address", .nested (inline [] address)) ∈ shape ∧
      ("orders", .text "Array<\x7b\n        sku: string;\n    \x7d>;") ∈ shape ∧
      (inline [] address).keys = ["street", "lines"] ∧
      ("lines", .text "Array<\x7b\n        line: string;\n    \x7d>;") ∈ inline [] address := by
  obtain ⟨hperson, -, -⟩ := members_at_every_depth [] (fun _ _ => none) person
  obtain ⟨haddress, -, -⟩ := members_at_every_depth [] (fun _ _ => none) address
  have hlast : LastField person "address" (.branch address) := .tail (.head (by decide) (by decide))
  have horders : LastField person "orders[]" (.branch [("sku", .leaf "sku|xs:string")]) :=
    .tail (.tail (.head (by decide) (by simp)))
  have hlines : LastField address "lines[]" (.branch [("line", .leaf "line|xs:string")]) :=
    .tail (.head (by decide) (by simp))
  exact ⟨hperson.names.trans (by decide), hperson.last _ _ hlast, hperson.last _ _ horders,
    haddress.names.trans (by decide), haddress.last _ _ hlines⟩

/-- Two keys with one field name between them have one member, that of the second key: the street
that is no array is lost. -/
theorem street_lost :
    let fields : Fields := [("street", .leaf "street|xs:string"),
      ("street[]", .leaf "street|xs:string")]
    FieldTree.decode "output" (.object [("street", .text "street|xs:string"),
        ("street[]", .text "street|xs:string")]) = .ok (.branch fields) ∧
      fields.keys.Nodup ∧ (keyed fields).length = 2 ∧
      inline [] fields = [("street", .leaf none "string[];")] :=
  ⟨rfl, by decide, by decide, rfl⟩

end Shape

end SoapTypes
