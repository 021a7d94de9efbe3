import Mathlib.Algebra.BigOperators.Group.List.Basic
import SoapTypes.Proofs.LeafTexts
import SoapTypes.Proofs.TablesInStep
import SoapTypes.Proofs.WrittenLeaves

/-!
# Which property names are quoted

The text of an object of fields consists of property names and of what stands around them, and only
the names depend on the quoting. A name that belongs to the element of an array is written before
the quoting of the whole text is known: it is quoted as needed, whatever the quoting is. Every other
name is written as the quoting says, at any depth.

* `Part` is a property name or the text between two of them; `bodyParts` are those of an object.
* `render_eq_writeAll`: the text of an object is made of its parts, with any quoting.
* `mem_properties_iff`: the property names are those of the fields that are written out.
* `Catalog.property_names_of_bodies` says so of the types of all inputs and outputs of a build.
-/

namespace SoapTypes

open Text

/-! ### Texts and their written forms -/

theorem Text.indent_iterate_of_oneLine {s : String} (h : OneLine s) (depth : Nat) :
    indent^[depth] s = s := Function.iterate_fixed (indent_of_single_line h) depth

theorem Text.break_mem_indent_iterate {s : String} (h : '\n' ∈ s.toList) (depth : Nat) :
    '\n' ∈ (indent^[depth] s).toList := by
  induction depth with
  | zero => exact h
  | succ depth ih =>
    rw [Function.iterate_succ_apply', toList_indent]
    exact List.mem_flatMap.2 ⟨'\n', ih, by simp [indentChar]⟩

theorem Text.length_lt_length_quoted (s : String) :
    s.toList.length < (quoted s).toList.length := by
  have hpos : ∀ c, 1 ≤ (quotedChar c).length := by
    intro c
    rcases Json.quotedChar_cases c with ⟨-, -, -, h⟩ | ⟨letter, -, -, h⟩ | h
    · simp [h]
    · simp [h]
    · rw [h, utf16Units]
      split <;> simp
  have hle : s.toList.length ≤ (s.toList.flatMap quotedChar).length := by
    rw [List.length_flatMap]
    simpa using List.length_le_sum_of_one_le (s.toList.map fun c => (quotedChar c).length)
      (by simpa using fun c _ => hpos c)
  rw [toList_quoted, List.length_cons, List.length_append, List.length_singleton]
  omega

/-- No name is its own written form, moved or not. -/
theorem Text.indent_iterate_ne_quoted (s : String) (depth : Nat) : indent^[depth] s ≠ quoted s := by
  intro he
  by_cases h : '\n' ∈ s.toList
  · exact oneLine_quoted s (he ▸ break_mem_indent_iterate h depth)
  · rw [indent_iterate_of_oneLine h] at he
    have hl := length_lt_length_quoted s
    rw [← he] at hl
    exact Nat.lt_irrefl _ hl

/-! ### Property names at their places -/

/-- A property name in a text: how many steps the block around it is moved to the right, and whether
it belongs to the element of an array. -/
structure PropertyAt where
  name : String
  depth : Nat
  inElement : Bool
  deriving DecidableEq

namespace PropertyAt

/-- What is written for a name. The quoting of the text does not reach the element of an array. -/
def written (quoting : Quoting) (property : PropertyAt) : String :=
  indent^[property.depth]
    (Shape.propertyName (if property.inElement then .asNeeded else quoting) property.name)

/-- A name is written as a text between double quotes. -/
def IsQuoted (quoting : Quoting) (property : PropertyAt) : Prop :=
  property.written quoting = quoted property.name

/-- A name is written as it is. If it has line breaks, they are moved with the block around it. -/
def IsBare (quoting : Quoting) (property : PropertyAt) : Prop :=
  property.written quoting = indent^[property.depth] property.name

instance (quoting : Quoting) (property : PropertyAt) : Decidable (property.IsQuoted quoting) :=
  inferInstanceAs (Decidable (_ = _))

instance (quoting : Quoting) (property : PropertyAt) : Decidable (property.IsBare quoting) :=
  inferInstanceAs (Decidable (_ = _))

/-- A name of a block that stands in another one, or in the element of an array there. -/
def inside (array : Bool) (property : PropertyAt) : PropertyAt :=
  ⟨property.name, property.depth + 1, property.inElement || array⟩

theorem written_inside (quoting : Quoting) (array : Bool) (property : PropertyAt) :
    (property.inside array).written quoting =
      indent (property.written (if array then .asNeeded else quoting)) := by
  rw [written, inside, Function.iterate_succ_apply', written]
  cases property.inElement <;> cases array <;> rfl

/-- With all names quoted, exactly those are not that could stand bare in the element of an
array. -/
theorem isQuoted_always_iff (property : PropertyAt) :
    property.IsQuoted .always ↔ (property.inElement = true → isBare property.name = false) := by
  have hq := indent_iterate_of_oneLine (oneLine_quoted property.name) property.depth
  cases he : property.inElement with
  | false => simpa [IsQuoted, written, he, Shape.propertyName] using hq
  | true =>
    cases hb : isBare property.name with
    | false => simpa [IsQuoted, written, he, hb, Shape.propertyName] using hq
    | true =>
      simpa [IsQuoted, written, he, hb, Shape.propertyName] using
        indent_iterate_ne_quoted property.name property.depth

/-- With all names bare, exactly those are not that need quotes in the element of an array. -/
theorem isBare_never_iff (property : PropertyAt) :
    property.IsBare .never ↔ (property.inElement = true → isBare property.name = true) := by
  have hq := indent_iterate_of_oneLine (oneLine_quoted property.name) property.depth
  cases he : property.inElement with
  | false => simp [IsBare, written, he, Shape.propertyName]
  | true =>
    cases hb : isBare property.name with
    | true => simp [IsBare, written, he, hb, Shape.propertyName]
    | false =>
      simpa [IsBare, written, he, hb, Shape.propertyName, hq] using
        (indent_iterate_ne_quoted property.name property.depth).symm

end PropertyAt

/-! ### The parts of a text -/

/-- A part of the text of an object. -/
inductive Part where
  | text (s : String)
  | name (property : PropertyAt)

namespace Part

/-- What is written for a part. -/
def write (quoting : Quoting) : Part → String
  | text s => s
  | name property => property.written quoting

/-- A part of a block that stands in another one, or in the element of an array there. -/
def inside (array : Bool) : Part → Part
  | text s => .text (indent s)
  | name property => .name (property.inside array)

/-- The property name that a part is. -/
def property? : Part → Option PropertyAt
  | text _ => none
  | name property => some property

end Part

/-- What is written for some parts, one after the other. -/
def writeAll (quoting : Quoting) : List Part → String
  | [] => ""
  | part :: parts => part.write quoting ++ writeAll quoting parts

/-- The property names among some parts. -/
def properties (parts : List Part) : List PropertyAt := parts.filterMap Part.property?

/-- The parts of an object type from the parts of its members. -/
def blockParts : List (List Part) → List Part
  | [] => [.text "\x7b\x7d"]
  | member :: members =>
    .text ("\x7b\n" ++ indentStep) ::
      (((member :: members).intersperse [.text Outline.lineSeparator]).flatten ++
        [.text "\n\x7d"])

section Write

variable (quoting : Quoting)

@[simp] theorem writeAll_nil : writeAll quoting [] = "" := rfl

@[simp] theorem writeAll_cons (part : Part) (parts : List Part) :
    writeAll quoting (part :: parts) = part.write quoting ++ writeAll quoting parts := rfl

@[simp] theorem writeAll_append (parts more : List Part) :
    writeAll quoting (parts ++ more) = writeAll quoting parts ++ writeAll quoting more := by
  induction parts with
  | nil => simp
  | cons part parts ih => simp [ih, String.append_assoc]

/-- A block that stands in another one is moved as a whole. -/
theorem writeAll_inside (array : Bool) (parts : List Part) :
    writeAll quoting (parts.map (Part.inside array)) =
      indent (writeAll (if array then .asNeeded else quoting) parts) := by
  induction parts with
  | nil => rfl
  | cons part parts ih =>
    rw [List.map_cons, writeAll_cons, writeAll_cons, ih, indent_append]
    cases part with
    | text s => rfl
    | name property => exact congrArg (· ++ _) (property.written_inside quoting array)

theorem writeAll_intersperse (separator : String) (members : List (List Part)) :
    writeAll quoting (members.intersperse [.text separator]).flatten =
      joinWith separator (members.map (writeAll quoting)) := by
  induction members with
  | nil => rfl
  | cons member members ih =>
    cases members with
    | nil => simp
    | cons next members =>
      rw [List.intersperse_cons_cons, List.flatten_cons, List.flatten_cons, writeAll_append,
        writeAll_append, ih]
      simp [Part.write, String.append_assoc]

/-- The parts of an object type make up the text of its members. -/
theorem writeAll_blockParts (members : List (List Part)) :
    writeAll quoting (blockParts members) = Shape.block (members.map (writeAll quoting)) := by
  cases members with
  | nil => rfl
  | cons member members =>
    rw [blockParts, writeAll_cons, writeAll_append, writeAll_intersperse, List.map_cons,
      Shape.block, writeAll_cons, writeAll_nil]
    simp [Part.write, Outline.lineSeparator, String.append_assoc]

end Write

@[simp] theorem properties_append (parts more : List Part) :
    properties (parts ++ more) = properties parts ++ properties more := List.filterMap_append

@[simp] theorem properties_cons_text (s : String) (parts : List Part) :
    properties (.text s :: parts) = properties parts := rfl

@[simp] theorem properties_cons_name (property : PropertyAt) (parts : List Part) :
    properties (.name property :: parts) = property :: properties parts := rfl

@[simp] theorem properties_nil : properties [] = [] := rfl

theorem properties_inside (array : Bool) (parts : List Part) :
    properties (parts.map (Part.inside array)) =
      (properties parts).map (PropertyAt.inside array) := by
  induction parts with
  | nil => rfl
  | cons part parts ih =>
    cases part with
    | text s => exact ih
    | name property => exact congrArg (_ :: ·) ih

theorem properties_blockParts (members : List (List Part)) :
    properties (blockParts members) = members.flatMap properties := by
  have hjoin : ∀ members : List (List Part),
      properties (members.intersperse [.text Outline.lineSeparator]).flatten =
        members.flatMap properties := by
    intro members
    induction members with
    | nil => rfl
    | cons member members ih =>
      cases members with
      | nil => simp
      | cons next members =>
        rw [List.intersperse_cons_cons, List.flatten_cons, List.flatten_cons, properties_append,
          properties_append, ih, List.flatMap_cons]
        simp
  cases members with
  | nil => rfl
  | cons member members =>
    rw [blockParts, properties_cons_text, properties_append, hjoin]
    simp

/-- Whether lines belong together or are joined before, the object type is the same. -/
theorem Shape.block_flatMap {α : Type} (f : α → List String) {l : List α}
    (h : ∀ x ∈ l, f x ≠ []) :
    block (l.flatMap f) = block (l.map fun x => joinWith Outline.lineSeparator (f x)) := by
  have hblock : ∀ lines : List String, lines ≠ [] → block lines =
      "\x7b\n" ++ indentStep ++ joinWith Outline.lineSeparator lines ++ "\n\x7d" := by
    intro lines hl
    obtain ⟨line, lines, rfl⟩ := List.exists_cons_of_ne_nil hl
    rfl
  cases l with
  | nil => rfl
  | cons x l =>
    have hx : f x ≠ [] := h x List.mem_cons_self
    rw [hblock _ (by simp [hx]), hblock _ (by simp), joinWith_flatMap _ _ _ h]

/-! ### The parts of an object of fields -/

namespace FieldTree

mutual

/-- The parts of a field: its name with what stands around it, and for a branch that is written out
the parts of its object. -/
def partsOf (known : KnownEnums) (references : References) (targetNamespace : Option String)
    (array : Bool) (name : String) : FieldTree → List Part
  | .leaf label =>
    (Shape.leafComment targetNamespace label).toList.map
        (fun comment => .text (comment ++ Outline.lineSeparator)) ++
      [.name ⟨name, 0, false⟩,
        .text (": " ++ Shape.leafText known targetNamespace array label)]
  | .branch members =>
    let body := blockParts (Entries.ofPairs
      (partsOfAll known references (targetNamespace? members) members)).values
    .name ⟨name, 0, false⟩ ::
      match references name (writeAll .asNeeded body) with
      | some reference =>
        [.text (": " ++ Outline.referenceText array (if array then indent reference else reference))]
      | none =>
        .text (": " ++ Outline.opening array) ::
          (body.map (Part.inside array) ++ [.text (Outline.closing array)])

/-- The parts of the fields of an object one by one, metadata left out. -/
def partsOfAll (known : KnownEnums) (references : References) (targetNamespace : Option String) :
    List (String × FieldTree) → List (String × List Part)
  | [] => []
  | (key, tree) :: members =>
    if isMetadata key then partsOfAll known references targetNamespace members
    else
      (fieldName key, tree.partsOf known references targetNamespace (isArrayKey key)
        (fieldName key)) :: partsOfAll known references targetNamespace members

end

/-- The parts of the text of an object of fields. -/
def bodyParts (known : KnownEnums) (references : References) (fields : Fields) : List Part :=
  blockParts (Entries.ofPairs
    (partsOfAll known references (targetNamespace? fields) fields)).values

/-- A property name stands in the text of an object of fields: it names a field of the object, or
stands in the text of a branch that is written out. -/
inductive Names (known : KnownEnums) (references : References) : Fields → PropertyAt → Prop where
  | field {fields : Fields} {key : String} {tree : FieldTree} (h : LastField fields key tree) :
      Names known references fields ⟨fieldName key, 0, false⟩
  | inside {fields members : Fields} {key : String} {property : PropertyAt}
      (h : LastField fields key (.branch members))
      (hr : references (fieldName key)
        (Shape.render .asNeeded (Shape.ofFields known references members)) = none)
      (hp : Names known references members property) :
      Names known references fields (property.inside (isArrayKey key))

section Parts

variable {known : KnownEnums} {references : References}

theorem partsOfAll_eq_eachField (targetNamespace : Option String)
    (members : List (String × FieldTree)) :
    partsOfAll known references targetNamespace members =
      eachField (fun key tree => tree.partsOf known references targetNamespace (isArrayKey key)
        (fieldName key)) members := by
  induction members with
  | nil => rfl
  | cons entry members ih =>
    obtain ⟨key, tree⟩ := entry
    by_cases hk : isMetadata key = true
    · rw [partsOfAll, if_pos hk, eachField_cons_metadata hk, ih]
    · rw [partsOfAll, if_neg hk, eachField_cons_field (by simpa using hk), ih]

/-- A member and parts that are written alike, with any quoting. -/
def WrittenInParts (name : String) (member : Member) (parts : List Part) : Prop :=
  ∀ quoting, joinWith Outline.lineSeparator (Shape.memberLines quoting name member) =
    writeAll quoting parts

/-- A shape and parts that are written alike field by field have the same text. -/
theorem render_eq_of_related {shape : Shape} {table : Entries (List Part)}
    (h : Entries.Related WrittenInParts shape table) (quoting : Quoting) :
    Shape.render quoting shape = writeAll quoting (blockParts table.values) := by
  have hmembers : shape.map (fun entry => joinWith Outline.lineSeparator
      (Shape.memberLines quoting entry.1 entry.2)) = table.values.map (writeAll quoting) := by
    rw [Entries.values, List.map_map]
    induction h with
    | nil => rfl
    | cons hxy _ ih => exact congrArg₂ List.cons (hxy.2 quoting) ih
  rw [Shape.render, Outline.shapeLines_eq_flatMap, writeAll_blockParts, ← hmembers,
    Shape.block_flatMap _ fun entry _ => Outline.memberLines_ne_nil entry.1 entry.2]

/-- A branch is written like its parts, once its object is. -/
theorem writtenInParts_branch {name : String} {array : Bool} {shape : Shape} {body : List Part}
    (hb : ∀ quoting, Shape.render quoting shape = writeAll quoting body) :
    WrittenInParts name
      (Shape.branchMember references array name shape (Shape.render .asNeeded shape))
      (.name ⟨name, 0, false⟩ ::
        match references name (writeAll .asNeeded body) with
        | some reference =>
          [.text (": " ++
            Outline.referenceText array (if array then indent reference else reference))]
        | none =>
          .text (": " ++ Outline.opening array) ::
            (body.map (Part.inside array) ++ [.text (Outline.closing array)])) := by
  intro quoting
  rw [← hb]
  cases hr : references name (Shape.render .asNeeded shape) with
  | some reference =>
    cases array <;>
      simp [Shape.branchMember, hr, Outline.referenceText, Part.write, PropertyAt.written,
        String.append_assoc]
  | none =>
    cases array with
    | false =>
      simp only [Shape.branchMember, hr, Shape.memberLines_nested, joinWith_singleton,
        writeAll_cons, writeAll_append, writeAll_inside, ← hb]
      simp [Part.write, PropertyAt.written, Outline.opening, Outline.closing, String.append_assoc]
    | true =>
      -- the element of the array is a finished text, and its names are quoted as needed
      have ha : Shape.arrayOf (indent (Shape.render .asNeeded shape)) =
          "Array<" ++ indent (Shape.render .asNeeded shape) ++ ">" := Outline.arrayOf_block _
      have hc : ">;" = ">" ++ ";" := by decide
      simp only [Shape.branchMember, hr, Option.getD_none, Shape.memberLines_text,
        joinWith_singleton, writeAll_cons, writeAll_nil, writeAll_append, writeAll_inside, ← hb,
        Part.write, PropertyAt.written, Outline.opening, Outline.closing, ha, hc, if_true,
        Bool.false_eq_true, if_false, Function.iterate_zero_apply, String.append_empty,
        String.append_assoc]

mutual

theorem writtenInParts_partsOf (targetNamespace : Option String) (array : Bool) (name : String) :
    ∀ tree : FieldTree,
      WrittenInParts name
        (Shape.buildTree known references targetNamespace array name tree).result
        (tree.partsOf known references targetNamespace array name)
  | .leaf label => fun quoting => by
    rw [Shape.buildTree_leaf, Shape.memberLines_resolveLeaf, partsOf]
    cases Shape.leafComment targetNamespace label <;>
      simp [Part.write, PropertyAt.written, String.append_assoc]
  | .branch members =>
    writtenInParts_branch (render_eq_of_related
      (Entries.related_ofPairs (related_partsOfAll (targetNamespace? members) members)))

theorem related_partsOfAll (targetNamespace : Option String) :
    ∀ members : List (String × FieldTree),
      Entries.Related WrittenInParts
        (Shape.buildTrees known references targetNamespace members).result
        (partsOfAll known references targetNamespace members)
  | [] => .nil
  | (key, tree) :: members => by
    by_cases hk : isMetadata key = true
    · rw [Shape.buildTrees_cons_metadata known references targetNamespace hk, partsOfAll, if_pos hk]
      exact related_partsOfAll targetNamespace members
    · rw [Shape.buildTrees_cons_field known references targetNamespace (by simpa using hk),
        partsOfAll, if_neg hk]
      exact .cons ⟨rfl, writtenInParts_partsOf targetNamespace (isArrayKey key) (fieldName key) tree⟩
        (related_partsOfAll targetNamespace members)

end

/-- **The text of an object of fields is made of its parts**, with any quoting. -/
theorem render_eq_writeAll (fields : Fields) (quoting : Quoting) :
    Shape.render quoting (Shape.ofFields known references fields) =
      writeAll quoting (bodyParts known references fields) :=
  render_eq_of_related (Entries.related_ofPairs (related_partsOfAll _ fields)) quoting

/-- The parts of a branch that is shared. -/
theorem partsOf_branch_of_some {targetNamespace : Option String} {array : Bool} {name : String}
    {members : Fields} {reference : String}
    (h : references name (Shape.render .asNeeded (Shape.ofFields known references members)) =
      some reference) :
    partsOf known references targetNamespace array name (.branch members) =
      [.name ⟨name, 0, false⟩, .text (": " ++
        Outline.referenceText array (if array then indent reference else reference))] := by
  rw [render_eq_writeAll, bodyParts] at h
  rw [partsOf]
  simp only [h]

/-- The parts of a branch that is written out. -/
theorem partsOf_branch_of_none {targetNamespace : Option String} {array : Bool} {name : String}
    {members : Fields}
    (h : references name (Shape.render .asNeeded (Shape.ofFields known references members)) =
      none) :
    partsOf known references targetNamespace array name (.branch members) =
      .name ⟨name, 0, false⟩ :: .text (": " ++ Outline.opening array) ::
        ((bodyParts known references members).map (Part.inside array) ++
          [.text (Outline.closing array)]) := by
  rw [render_eq_writeAll, bodyParts] at h
  rw [partsOf, bodyParts]
  simp only [h]

/-! ### The property names of an object of fields -/

theorem properties_leaf (targetNamespace : Option String) (array : Bool) (name label : String) :
    properties (partsOf known references targetNamespace array name (.leaf label)) =
      [⟨name, 0, false⟩] := by
  rw [partsOf]
  cases Shape.leafComment targetNamespace label <;> rfl

/-- The property names of a branch are its own and, unless it is a reference, those of its
object. -/
theorem mem_properties_branch_iff {targetNamespace : Option String} {array : Bool} {name : String}
    {members : Fields} {property : PropertyAt} :
    property ∈ properties (partsOf known references targetNamespace array name (.branch members)) ↔
      property = ⟨name, 0, false⟩ ∨
        references name (Shape.render .asNeeded (Shape.ofFields known references members)) = none ∧
          ∃ inner ∈ properties (bodyParts known references members),
            inner.inside array = property := by
  cases hr : references name (Shape.render .asNeeded (Shape.ofFields known references members)) with
  | some reference =>
    rw [partsOf_branch_of_some hr]
    simp
  | none =>
    rw [partsOf_branch_of_none hr]
    simp [properties_inside]

/-- The property names of an object are those of the fields that are not replaced. -/
theorem mem_properties_bodyParts_iff {fields : Fields} {property : PropertyAt} :
    property ∈ properties (bodyParts known references fields) ↔
      ∃ key tree, LastField fields key tree ∧
        property ∈ properties (partsOf known references (targetNamespace? fields) (isArrayKey key)
          (fieldName key) tree) := by
  rw [bodyParts, properties_blockParts, partsOfAll_eq_eachField, List.mem_flatMap]
  constructor
  · rintro ⟨parts, hm, hp⟩
    obtain ⟨⟨name, parts⟩, he, rfl⟩ := List.mem_map.1 hm
    obtain ⟨key, tree, hl, -, rfl⟩ := mem_ofPairs_eachField_iff.1 he
    exact ⟨key, tree, hl, hp⟩
  · rintro ⟨key, tree, hl, hp⟩
    exact ⟨_, List.mem_map_of_mem (mem_ofPairs_eachField_iff.2 ⟨key, tree, hl, rfl, rfl⟩), hp⟩

/-- **The property names in a text are those of the fields that are written out in it.** -/
theorem mem_properties_iff {fields : Fields} {property : PropertyAt} :
    property ∈ properties (bodyParts known references fields) ↔
      Names known references fields property := by
  constructor
  · intro hp
    induction hh : heightAll fields using Nat.strong_induction_on generalizing fields property with
    | _ height ih =>
      obtain ⟨key, tree, hl, hp⟩ := mem_properties_bodyParts_iff.1 hp
      cases tree with
      | leaf label =>
        rw [properties_leaf, List.mem_singleton] at hp
        exact hp ▸ .field hl
      | branch members =>
        rcases mem_properties_branch_iff.1 hp with rfl | ⟨hr, inner, hi, rfl⟩
        · exact .field hl
        · -- the fields of the branch nest less deep
          have hlt := heightAll_fields_lt (mem_allBranches_of_mem hl.mem hl.isField)
          exact .inside hl hr (ih _ (hh ▸ hlt) hi rfl)
  · intro h
    induction h with
    | @field fields key tree hl =>
      refine mem_properties_bodyParts_iff.2 ⟨key, tree, hl, ?_⟩
      cases tree with
      | leaf label => rw [properties_leaf, List.mem_singleton]
      | branch members => exact mem_properties_branch_iff.2 (.inl rfl)
    | inside hl hr _ ih =>
      exact mem_properties_bodyParts_iff.2
        ⟨_, _, hl, mem_properties_branch_iff.2 (.inr ⟨hr, _, ih, rfl⟩)⟩

end Parts

end FieldTree

namespace Catalog

open FieldTree

/-- **Which property names of a build are quoted.** A description can be built, and whatever catalog
it is built into, the type of each input and output is made of parts that do not depend on the
quoting. The property names among them are those of all fields that are written out, at any depth
and also in the elements of arrays. If all names shall be quoted, a name is written between double
quotes unless it could stand bare in the element of an array; if no name shall be, a name is written
bare unless it needs quotes in the element of an array. -/
theorem property_names_of_bodies (options : Options) {description : Description}
    (hd : description.Keyed) {service endpoint : String} {endpoints : Entries Operations}
    {operations : Operations} (hs : (service, endpoints) ∈ description)
    (he : (endpoint, operations) ∈ endpoints) :
    (∃ catalog, (build options description empty).outcome = .ok catalog) ∧
    ∀ start catalog, (build options description start).outcome = .ok catalog →
      ∀ entry ∈ operations, ∀ direction ∈ [(Signature.inputType entry.1, entry.2.input),
          (Signature.outputType entry.1, entry.2.output)],
        let references := (settleEndpoint options endpoint operations).registry.references
        let parts := bodyParts options.known references direction.2
        catalog.typeBody? service endpoint direction.1 = some (writeAll options.quoting parts) ∧
        (∀ property, property ∈ properties parts ↔
          Names options.known references direction.2 property) ∧
        (options.quoting = .always → ∀ property ∈ properties parts,
          (property.IsQuoted options.quoting ↔
            (property.inElement = true → isBare property.name = false))) ∧
        (options.quoting = .never → ∀ property ∈ properties parts,
          (property.IsBare options.quoting ↔
            (property.inElement = true → isBare property.name = true))) := by
  refine ⟨?_, fun start catalog hb entry hm direction hdir => ?_⟩
  · obtain ⟨catalog, hb, -⟩ := inStep_empty.build options description
    exact ⟨catalog, hb⟩
  intro references parts
  have hem := emitted_of_build hd hs he hb
  let registry := (settleEndpoint options endpoint operations).registry
  refine ⟨?_, fun property => mem_properties_iff, fun hq property _ => ?_, fun hq property _ => ?_⟩
  · have hrender : registry.render options direction.2 = writeAll options.quoting parts :=
      render_eq_writeAll direction.2 options.quoting
    rw [← hrender]
    exact hem.typeBody_of_direction hm hdir
  · rw [hq]
    exact property.isQuoted_always_iff
  · rw [hq]
    exact property.isBare_never_iff

/-- The output of an operation that lists entries. -/
def listed : Fields := [("entries[]", .branch [("sku", .leaf "sku|xs:string")])]

/-- The output of an operation that finds entries. -/
def found : Fields := [("entries[]", .branch [("full name", .leaf "name|xs:string")])]

/-- Two operations whose entries have different shapes, so that no shape is shared for them. -/
def entryLists : Operations := [("List", ⟨[], listed⟩), ("Find", ⟨[], found⟩)]

/-- With all names quoted that of the list is, and one in its entries that could stand bare is
not. -/
theorem property_names_of_bodies_entryLists :
    let options : Options := { quoting := .always }
    let parts := bodyParts [] (settleEndpoint options "Book" entryLists).registry.references listed
    Description.Keyed [("Directory", [("Book", entryLists)])] ∧
    ∃ catalog, (build options [("Directory", [("Book", entryLists)])] empty).outcome =
        .ok catalog ∧
      catalog.typeBody? "Directory" "Book" "IListOutput" = some (writeAll .always parts) ∧
      properties parts = [⟨"entries", 0, false⟩, ⟨"sku", 1, true⟩] ∧
      PropertyAt.IsQuoted .always ⟨"entries", 0, false⟩ ∧
      ¬ PropertyAt.IsQuoted .always ⟨"sku", 1, true⟩ := by
  intro options parts
  have hd : Description.Keyed [("Directory", [("Book", entryLists)])] := by decide
  obtain ⟨⟨catalog, hb⟩, h⟩ := property_names_of_bodies options hd (List.mem_singleton.2 rfl)
    (List.mem_singleton.2 rfl)
  obtain ⟨hbody, -, hquoted, -⟩ := h empty catalog hb ("List", ⟨[], listed⟩) List.mem_cons_self _
    (List.mem_cons_of_mem _ List.mem_cons_self)
  have hparts : properties parts = [⟨"entries", 0, false⟩, ⟨"sku", 1, true⟩] := by decide +kernel
  have hq := hquoted rfl
  refine ⟨hd, catalog, hb, hbody, hparts, ?_, ?_⟩
  · exact (hq _ (hparts ▸ List.mem_cons_self)).2 fun he => by cases he
  · rw [hq ⟨"sku", 1, true⟩ (hparts ▸ List.mem_cons_of_mem _ List.mem_cons_self)]
    exact fun h => absurd (h rfl) (by decide)

/-- **Names in the elements of arrays are quoted as needed.** With all names quoted the name `sku`
is written bare, and with no name quoted `full name` stands between quotes. -/
theorem element_names_as_needed :
    let references := (settleEndpoint {} "Book" entryLists).registry.references
    Description.Keyed [("Directory", [("Book", entryLists)])] ∧
    ((∃ catalog,
      (build { quoting := .always } [("Directory", [("Book", entryLists)])] empty).outcome =
        .ok catalog ∧
      catalog.typeBody? "Directory" "Book" "IListOutput" =
        some "\x7b\n    \"entries\": Array<\x7b\n        sku: string;\n    \x7d>;\n\x7d") ∧
      Names [] references listed ⟨"sku", 1, true⟩ ∧
      ¬ PropertyAt.IsQuoted .always ⟨"sku", 1, true⟩) ∧
    (∃ catalog,
      (build { quoting := .never } [("Directory", [("Book", entryLists)])] empty).outcome =
        .ok catalog ∧
      catalog.typeBody? "Directory" "Book" "IFindOutput" =
        some "\x7b\n    entries: Array<\x7b\n        \"full name\": string;\n    \x7d>;\n\x7d") ∧
      Names [] references found ⟨"full name", 1, true⟩ ∧
      ¬ PropertyAt.IsBare .never ⟨"full name", 1, true⟩ := by
  have hbody : ∀ quoting type body, (build { quoting }
        [("Directory", [("Book", entryLists)])] empty).outcome.toOption.bind (fun catalog =>
          catalog.typeBody? "Directory" "Book" type) = some body →
      ∃ catalog, (build { quoting } [("Directory", [("Book", entryLists)])] empty).outcome =
          .ok catalog ∧ catalog.typeBody? "Directory" "Book" type = some body := by
    intro quoting type body h
    obtain ⟨catalog, hb, -⟩ := inStep_empty.build { quoting }
      [("Directory", [("Book", entryLists)])]
    rw [hb] at h
    exact ⟨catalog, hb, h⟩
  refine ⟨by decide, ⟨hbody _ _ _ (by decide +kernel), mem_properties_iff.1 ?_, by decide⟩,
    hbody _ _ _ (by decide +kernel), mem_properties_iff.1 ?_, by decide⟩
  · decide +kernel
  · decide +kernel

end Catalog

end SoapTypes
