import SoapTypes.Proofs.SharedNames
import SoapTypes.Proofs.WrittenUses

/-!
# Leaves in written texts

The text of an object of fields has the leaves of the object, and those of the branches that are
written out in it. A branch that is shared has its leaves in the text of the shared shape, and a
member that a later member of the same field replaces is not in the text of its object.

* `LastField` is a member that is not replaced; `mem_ofPairs_eachField_iff`: these make a table of
  fields, and by `Shape.mem_ofFields_iff` the shape.
* `WrittenOut` relates an object of fields to those that are written out in its text.
* `WrittenOut.uses` and `exists_usedIn`: the text uses what stands in these objects, and all that
  it uses stands there.
* `Operations.Survives` says that a leaf of an endpoint is in a text of it at the end.
-/

namespace SoapTypes

open Text

/-- A leaf at its place: the namespace of its object, whether it is an array, and its label. -/
structure LeafField where
  targetNamespace : Option String
  array : Bool
  label : String

namespace LeafField

/-- What is written behind the name of a leaf. -/
def text (known : KnownEnums) (leaf : LeafField) : String :=
  Shape.leafText known leaf.targetNamespace leaf.array leaf.label

/-- The comment of a leaf. -/
def comment (leaf : LeafField) : Option String :=
  Shape.leafComment leaf.targetNamespace leaf.label

end LeafField

namespace FieldTree

/-! ### Members that are not replaced -/

/-- A member of an object that no later member of the same field replaces. -/
inductive LastField : Fields → String → FieldTree → Prop where
  | head {key : String} {tree : FieldTree} {members : List (String × FieldTree)}
      (hk : isMetadata key = false)
      (hl : ∀ entry ∈ members, isMetadata entry.1 = false → fieldName entry.1 ≠ fieldName key) :
      LastField ((key, tree) :: members) key tree
  | tail {entry : String × FieldTree} {members : List (String × FieldTree)} {key : String}
      {tree : FieldTree} (h : LastField members key tree) : LastField (entry :: members) key tree

namespace LastField

variable {fields : Fields} {key : String} {tree : FieldTree}

theorem mem (h : LastField fields key tree) : (key, tree) ∈ fields := by
  induction h with
  | head => exact List.mem_cons_self
  | tail _ ih => exact List.mem_cons_of_mem _ ih

theorem isField (h : LastField fields key tree) : isMetadata key = false := by
  induction h with
  | head hk => exact hk
  | tail _ ih => exact ih

theorem cons_iff {first : String} {other : FieldTree} {members : List (String × FieldTree)} :
    LastField ((first, other) :: members) key tree ↔
      LastField members key tree ∨ (first = key ∧ other = tree ∧ isMetadata key = false ∧
        ∀ entry ∈ members, isMetadata entry.1 = false → fieldName entry.1 ≠ fieldName key) := by
  constructor
  · rintro (⟨hk, hl⟩ | h)
    · exact .inr ⟨rfl, rfl, hk, hl⟩
    · exact .inl (by assumption)
  · rintro (h | ⟨rfl, rfl, hk, hl⟩)
    · exact .tail h
    · exact .head hk hl

theorem cons_metadata_iff {first : String} (hf : isMetadata first = true) {other : FieldTree}
    {members : List (String × FieldTree)} :
    LastField ((first, other) :: members) key tree ↔ LastField members key tree := by
  rw [cons_iff, or_iff_left]
  rintro ⟨rfl, -, hk, -⟩
  simp [hf] at hk

end LastField

/-! ### Something for every field -/

/-- The fields of an object with their keys, its metadata left out. -/
def keyed (fields : Fields) : List (String × FieldTree) :=
  fields.filter fun entry => !isMetadata entry.1

/-- Something for every field of an object, under the field name. -/
def eachField {α : Type} (f : String → FieldTree → α) (fields : Fields) : List (String × α) :=
  (keyed fields).map fun entry => (fieldName entry.1, f entry.1 entry.2)

section EachField

variable {α : Type} {f : String → FieldTree → α}

theorem eachField_cons_metadata {key : String} (hk : isMetadata key = true) (tree : FieldTree)
    (members : List (String × FieldTree)) :
    eachField f ((key, tree) :: members) = eachField f members := by
  rw [eachField, keyed, List.filter_cons_of_neg (by simp [hk])]
  rfl

theorem eachField_cons_field {key : String} (hk : isMetadata key = false) (tree : FieldTree)
    (members : List (String × FieldTree)) :
    eachField f ((key, tree) :: members) =
      (fieldName key, f key tree) :: eachField f members := by
  rw [eachField, keyed, List.filter_cons_of_pos (by simp [hk])]
  rfl

/-- What is put for some members is what the last member of each field has. -/
theorem value?_putAll_eachField {members : List (String × FieldTree)} {table : Entries α}
    {name : String} {value : α} :
    (table.putAll (eachField f members)).value? name = some value ↔
      (∃ key tree, LastField members key tree ∧ fieldName key = name ∧ f key tree = value) ∨
      (∀ entry ∈ members, isMetadata entry.1 = false → fieldName entry.1 ≠ name) ∧
        table.value? name = some value := by
  induction members generalizing table with
  | nil =>
    have hnone : ∀ key tree, ¬ LastField [] key tree := fun key tree h => by cases h
    simp [hnone, eachField, keyed]
  | cons entry members ih =>
    obtain ⟨first, other⟩ := entry
    by_cases hf : isMetadata first = true
    · rw [eachField_cons_metadata hf, ih]
      simp only [LastField.cons_metadata_iff hf, List.forall_mem_cons, hf, Bool.true_eq_false,
        false_imp_iff, true_and]
    · have hf : isMetadata first = false := by simpa using hf
      rw [eachField_cons_field hf, Entries.putAll_cons, ih, Entries.value?_put]
      simp only [LastField.cons_iff, List.forall_mem_cons, hf, true_imp_iff]
      by_cases hn : fieldName first = name
      · rw [if_pos hn]
        constructor
        · rintro (⟨key, tree, h, hk, he⟩ | ⟨hl, he⟩)
          · exact .inl ⟨key, tree, .inl h, hk, he⟩
          · subst hn
            exact .inl ⟨first, other, .inr ⟨rfl, rfl, hf, hl⟩, rfl, Option.some.inj he⟩
        · rintro (⟨key, tree, h | ⟨rfl, rfl, -, hl⟩, hk, he⟩ | ⟨⟨hne, -⟩, -⟩)
          · exact .inl ⟨key, tree, h, hk, he⟩
          · subst hn
            exact .inr ⟨hl, congrArg some he⟩
          · exact absurd hn hne
      · rw [if_neg hn]
        constructor
        · rintro (⟨key, tree, h, hk, he⟩ | ⟨hl, he⟩)
          · exact .inl ⟨key, tree, .inl h, hk, he⟩
          · exact .inr ⟨⟨hn, hl⟩, he⟩
        · rintro (⟨key, tree, h | ⟨rfl, rfl, -, -⟩, hk, he⟩ | ⟨⟨-, hl⟩, he⟩)
          · exact .inl ⟨key, tree, h, hk, he⟩
          · exact absurd hk hn
          · exact .inr ⟨hl, he⟩

/-- **The members that are not replaced make a table of fields.** -/
theorem mem_ofPairs_eachField_iff {fields : Fields} {name : String} {value : α} :
    (name, value) ∈ Entries.ofPairs (eachField f fields) ↔
      ∃ key tree, LastField fields key tree ∧ fieldName key = name ∧ f key tree = value := by
  have hd : (Entries.ofPairs (eachField f fields)).Distinct := Entries.distinct_ofPairs _
  have hvalue := @value?_putAll_eachField α f fields [] name value
  rw [Entries.value?_nil] at hvalue
  constructor
  · intro hm
    rcases hvalue.1 (Entries.value?_of_mem hd hm) with h | ⟨-, h⟩
    · exact h
    · cases h
  · exact fun h => Entries.mem_of_value? (hvalue.2 (.inl h))

end EachField

end FieldTree

namespace Shape

open FieldTree

variable {known : KnownEnums} {references : References}

/-- The members of an object are built one for every field. -/
theorem result_buildTrees (targetNamespace : Option String) (members : List (String × FieldTree)) :
    (buildTrees known references targetNamespace members).result =
      eachField (fun key tree => (buildTree known references targetNamespace (isArrayKey key)
        (fieldName key) tree).result) members := by
  induction members with
  | nil => rfl
  | cons entry members ih =>
    obtain ⟨key, tree⟩ := entry
    by_cases hk : isMetadata key = true
    · rw [buildTrees_cons_metadata known references targetNamespace hk, eachField_cons_metadata hk,
        ih]
    · have hk : isMetadata key = false := by simpa using hk
      rw [buildTrees_cons_field known references targetNamespace hk, eachField_cons_field hk, ih]

theorem ofFields_eq_ofPairs (fields : Fields) :
    ofFields known references fields = Entries.ofPairs (eachField (fun key tree =>
      (buildTree known references (targetNamespace? fields) (isArrayKey key) (fieldName key)
        tree).result) fields) :=
  congrArg Entries.ofPairs (result_buildTrees (targetNamespace? fields) fields)

/-- **The members that are not replaced make the shape of an object.** -/
theorem mem_ofFields_iff {fields : Fields} {name : String} {member : Member} :
    (name, member) ∈ ofFields known references fields ↔
      ∃ key tree, LastField fields key tree ∧ fieldName key = name ∧
        (buildTree known references (targetNamespace? fields) (isArrayKey key) name tree).result =
          member := by
  rw [ofFields_eq_ofPairs, mem_ofPairs_eachField_iff]
  constructor
  · rintro ⟨key, tree, h, rfl, he⟩
    exact ⟨key, tree, h, rfl, he⟩
  · rintro ⟨key, tree, h, rfl, he⟩
    exact ⟨key, tree, h, rfl, he⟩

theorem mem_lines_iff {quoting : Quoting} {shape : Shape} {line : String} :
    line ∈ lines quoting shape ↔ ∃ entry ∈ shape, line ∈ memberLines quoting entry.1 entry.2 := by
  induction shape with
  | nil => simp
  | cons entry shape ih =>
    obtain ⟨name, member⟩ := entry
    simp [ih]

theorem uses_render_iff {quoting : Quoting} {shape : Shape} {name : List Char} :
    Uses name (render quoting shape).toList ↔
      ∃ entry ∈ shape, ∃ line ∈ memberLines quoting entry.1 entry.2, Uses name line.toList := by
  rw [render, uses_block]
  simp only [mem_lines_iff]
  constructor
  · rintro ⟨line, ⟨entry, he, hl⟩, hu⟩
    exact ⟨entry, he, line, hl, hu⟩
  · rintro ⟨entry, he, line, hl, hu⟩
    exact ⟨line, ⟨entry, he, hl⟩, hu⟩

/-- The line of a field uses what its name uses, and what stands behind the name. -/
theorem uses_line_iff {property value : String} {name : List Char} :
    Uses name (property ++ ": " ++ value).toList ↔
      Uses name property.toList ∨ Uses name (": " ++ value).toList := by
  have hcut : (property ++ ": " ++ value).toList =
      property.toList ++ ':' :: (' ' :: value.toList) := by
    simp [String.toList_append]
  have hvalue : (": " ++ value).toList = ':' :: (' ' :: value.toList) := by
    simp [String.toList_append]
  rw [hcut, hvalue, uses_append_colon]

/-- An object type uses the same with something in front that ends no use and something behind that
begins none. -/
theorem uses_around_render {quoting : Quoting} {shape : Shape} {front behind : String}
    {name : List Char} (hf : ∀ c ∈ front.toList, endsUse c = false)
    (hb : ∀ c ∈ behind.toList, c ≠ ':' ∧ c ≠ 'A') :
    Uses name (front ++ indent (render quoting shape) ++ behind).toList ↔
      Uses name (render quoting shape).toList := by
  have hbehind : ¬ Uses name behind.toList := by
    rw [← List.append_nil behind.toList, uses_append_left hb]
    exact not_uses_nil
  have hbraces : InBraces (indent (render quoting shape)).toList := (inBraces_block _).indent
  rw [String.toList_append, String.toList_append, List.append_assoc, hbraces.uses_append,
    or_iff_left hbehind, or_iff_right (not_uses_of_not_mem hf), uses_indent]

/-- A branch that is written out uses what its fields use. -/
theorem uses_branchMember_iff {quoting : Quoting} {array : Bool} {property : String} {shape : Shape}
    (hr : references property (render .asNeeded shape) = none) {name : List Char} :
    (∃ line ∈ memberLines quoting property (branchMember references array property shape
        (render .asNeeded shape)), Uses name line.toList) ↔
      Uses name (propertyName quoting property).toList ∨
        Uses name (render (if array then .asNeeded else quoting) shape).toList := by
  cases array with
  | false =>
    simp only [branchMember, hr, memberLines_nested, List.mem_singleton, exists_eq_left]
    rw [String.append_assoc, uses_line_iff, ← String.append_assoc,
      uses_around_render (forall_of_all (by decide)) (forall_of_all (by decide))]
    rfl
  | true =>
    simp only [branchMember, hr, Option.getD_none, memberLines_text, List.mem_singleton,
      exists_eq_left]
    have hvalue : ": " ++ (arrayOf (indent (render .asNeeded shape)) ++ ";") =
        ": Array<" ++ indent (render .asNeeded shape) ++ ">;" := by
      rw [render, Outline.arrayOf_block, show ": Array<" = ": " ++ "Array<" by decide,
        show ">;" = ">" ++ ";" by decide]
      simp only [String.append_assoc]
    rw [uses_line_iff, hvalue,
      uses_around_render (forall_of_all (by decide)) (forall_of_all (by decide))]
    rfl

end Shape

/-! ### Objects that are written out -/

namespace FieldTree

/-- An object of fields is written out in the text of another one: it is this object itself, or lies
in a branch of it that is no reference and is not replaced. -/
inductive WrittenOut (known : KnownEnums) (references : References) : Fields → Fields → Prop where
  | refl (fields : Fields) : WrittenOut known references fields fields
  | step {fields members inner : Fields} {key : String}
      (h : LastField fields key (.branch members))
      (hr : references (fieldName key)
        (Shape.render .asNeeded (Shape.ofFields known references members)) = none)
      (ho : WrittenOut known references members inner) : WrittenOut known references fields inner

/-- A leaf of an object that is not replaced. -/
def HasLeaf (fields : Fields) (leaf : LeafField) : Prop :=
  ∃ key, LastField fields key (.leaf leaf.label) ∧ leaf.array = isArrayKey key ∧
    leaf.targetNamespace = targetNamespace? fields

/-- A name is used as a type by something that stands in the text of an object of fields itself:
the name, the comment or the type of a field, or the reference to a branch. -/
inductive UsedIn (known : KnownEnums) (references : References) (fields : Fields)
    (name : List Char) : Prop where
  | property {key : String} {tree : FieldTree} (h : LastField fields key tree)
      (hu : Uses name (fieldName key).toList)
  | comment {leaf : LeafField} {comment : String} (h : HasLeaf fields leaf)
      (hc : leaf.comment = some comment) (hu : Uses name comment.toList)
  | type {leaf : LeafField} (h : HasLeaf fields leaf)
      (hu : Uses name (": " ++ leaf.text known).toList)
  | reference {key : String} {members : Fields} {reference written : String}
      (h : LastField fields key (.branch members))
      (hr : references (fieldName key)
        (Shape.render .asNeeded (Shape.ofFields known references members)) = some reference)
      (hw : written = reference ∨ written = indent reference)
      (hu : Uses name (": " ++ Outline.referenceText (isArrayKey key) written).toList)

section WrittenOut

variable {known : KnownEnums} {references : References} {fields inner : Fields} {name : List Char}

/-- What is written out with references is written out without them. -/
theorem WrittenOut.inline (h : WrittenOut known references fields inner) :
    WrittenOut known (fun _ _ => none) fields inner := by
  induction h with
  | refl fields => exact .refl fields
  | step h _ _ ih => exact .step h rfl ih

/-- **The text of an object has the uses of the objects that are written out in it.** -/
theorem WrittenOut.uses (h : WrittenOut known references fields inner)
    (hu : ∀ quoting,
      Uses name (Shape.render quoting (Shape.ofFields known references inner)).toList)
    (quoting : Quoting) :
    Uses name (Shape.render quoting (Shape.ofFields known references fields)).toList := by
  induction h generalizing quoting with
  | refl fields => exact hu quoting
  | step h hr _ ih =>
    rw [Shape.uses_render_iff]
    refine ⟨_, Shape.mem_ofFields_iff.2 ⟨_, _, h, rfl, rfl⟩, ?_⟩
    rw [Shape.buildTree_branch]
    exact (Shape.uses_branchMember_iff hr).2 (.inr (ih hu _))

/-- The type of a leaf is used in the text of its object. -/
theorem HasLeaf.uses {leaf : LeafField} (h : HasLeaf fields leaf)
    (hu : Uses name (": " ++ leaf.text known).toList) (quoting : Quoting) :
    Uses name (Shape.render quoting (Shape.ofFields known references fields)).toList := by
  obtain ⟨key, hl, ha, ht⟩ := h
  rw [Shape.uses_render_iff]
  refine ⟨_, Shape.mem_ofFields_iff.2 ⟨key, _, hl, rfl, rfl⟩,
    Shape.propertyName quoting (fieldName key) ++ ": " ++ leaf.text known, ?_,
    Shape.uses_line_iff.2 (.inr hu)⟩
  rw [Shape.buildTree_leaf, Shape.resolveLeaf_eq, LeafField.text, ha, ht]
  simp only [Shape.memberLines, Shape.leafText]
  split
  · exact List.mem_singleton_self _
  · split <;> simp

/-- The lines of a leaf use what its name, its comment and its type use. -/
theorem usedIn_of_leaf {quoting : Quoting} {key label line : String}
    (h : LastField fields key (.leaf label))
    (hm : line ∈ Shape.memberLines quoting (fieldName key)
      (Shape.resolveLeaf known (targetNamespace? fields) (isArrayKey key) label))
    (hu : Uses name line.toList) : UsedIn known references fields name := by
  let leaf : LeafField := ⟨targetNamespace? fields, isArrayKey key, label⟩
  have hleaf : HasLeaf fields leaf := ⟨key, h, rfl, rfl⟩
  have hline : Uses name (Shape.propertyName quoting (fieldName key) ++ ": " ++
      leaf.text known).toList → UsedIn known references fields name := fun hu =>
    (Shape.uses_line_iff.1 hu).elim (fun hu => .property h hu.of_propertyName) (.type hleaf)
  rw [Shape.resolveLeaf_eq] at hm
  simp only [Shape.memberLines] at hm
  split at hm
  · obtain rfl := List.mem_singleton.1 hm
    exact hline hu
  · rename_i comment hc
    split at hm
    · obtain rfl := List.mem_singleton.1 hm
      exact hline hu
    · rw [List.mem_cons, List.mem_singleton] at hm
      rcases hm with rfl | rfl
      · exact .comment hleaf hc hu
      · exact hline hu

/-- The line of a reference uses what its name and the reference use. -/
theorem usedIn_of_reference {quoting : Quoting} {key line reference : String} {members : Fields}
    (h : LastField fields key (.branch members))
    (hr : references (fieldName key)
      (Shape.render .asNeeded (Shape.ofFields known references members)) = some reference)
    (hm : line ∈ Shape.memberLines quoting (fieldName key)
      (Shape.branchMember references (isArrayKey key) (fieldName key)
        (Shape.ofFields known references members)
        (Shape.render .asNeeded (Shape.ofFields known references members))))
    (hu : Uses name line.toList) : UsedIn known references fields name := by
  cases ha : isArrayKey key with
  | false =>
    simp only [ha, Shape.branchMember, hr, Shape.memberLines_text, List.mem_singleton] at hm
    subst hm
    refine (Shape.uses_line_iff.1 hu).elim (fun hu => .property h hu.of_propertyName) fun hu => ?_
    refine .reference h hr (.inl rfl) ?_
    rwa [ha]
  | true =>
    simp only [ha, Shape.branchMember, hr, Shape.memberLines_text, List.mem_singleton] at hm
    subst hm
    refine (Shape.uses_line_iff.1 hu).elim (fun hu => .property h hu.of_propertyName) fun hu => ?_
    refine .reference h hr (.inr rfl) ?_
    rwa [ha]

/-- **Whatever the text of an object uses stands in an object that is written out in it.** -/
theorem exists_usedIn {quoting : Quoting}
    (hu : Uses name (Shape.render quoting (Shape.ofFields known references fields)).toList) :
    ∃ inner, WrittenOut known references fields inner ∧ UsedIn known references inner name := by
  induction hh : heightAll fields using Nat.strong_induction_on generalizing fields quoting with
  | _ height ih =>
    obtain ⟨⟨property, member⟩, he, line, hm, hu⟩ := Shape.uses_render_iff.1 hu
    obtain ⟨key, tree, hl, rfl, rfl⟩ := Shape.mem_ofFields_iff.1 he
    cases tree with
    | leaf label => exact ⟨fields, .refl fields, usedIn_of_leaf hl hm hu⟩
    | branch members =>
      rw [Shape.buildTree_branch] at hm
      cases hr : references (fieldName key)
          (Shape.render .asNeeded (Shape.ofFields known references members)) with
      | some reference => exact ⟨fields, .refl fields, usedIn_of_reference hl hr hm hu⟩
      | none =>
        rcases (Shape.uses_branchMember_iff hr).1 ⟨line, hm, hu⟩ with hu | hu
        · exact ⟨fields, .refl fields, .property hl hu.of_propertyName⟩
        · -- the fields of the branch nest less deep
          have hlt := heightAll_fields_lt (mem_allBranches_of_mem hl.mem hl.isField)
          obtain ⟨inner, ho, hin⟩ := ih _ (hh ▸ hlt) hu rfl
          exact ⟨inner, .step hl hr ho, hin⟩

end WrittenOut

end FieldTree

namespace Operations

open FieldTree

/-! ### Leaves of an endpoint -/

/-- A leaf of an endpoint is in a text of it after some passes: nothing replaces it, and no branch
around it, in the operation that it belongs to; or it is written out in the text that a branch had
in one of the passes, and this text is shared at the end. -/
inductive Survives (known : KnownEnums) (endpoint : String) (operations : Operations) (passes : Nat)
    (leaf : LeafField) : Prop where
  | inTree {fields inner : Fields} (hm : fields ∈ operations.trees)
      (ho : WrittenOut known (fun _ _ => none) fields inner) (hl : HasLeaf inner leaf)
  | inShared {j : Nat} {branch : Branch} {inner : Fields} (hj : j ≤ passes)
      (hm : branch ∈ operations.branches)
      (hs : (registryAfter known endpoint operations passes).registered.value? branch.name =
        some (branch.text known (registryAfter known endpoint operations j).references))
      (ho : WrittenOut known (registryAfter known endpoint operations j).references branch.fields
        inner) (hl : HasLeaf inner leaf)

section Survives

variable {known : KnownEnums} {endpoint : String} {operations : Operations} {passes : Nat}

/-- What no member replaces is written out with the references of a registry, in the same text or in
that of a branch that the registry shares. -/
theorem writtenOut_or_shared {registry : Registry} (ha : registry.isActive = true)
    {fields inner : Fields} (h : WrittenOut known (fun _ _ => none) fields inner)
    (hs : allBranches fields ⊆ operations.branches) :
    WrittenOut known registry.references fields inner ∨
      ∃ branch ∈ operations.branches, registry.registered.value? branch.name =
          some (branch.text known registry.references) ∧
        WrittenOut known registry.references branch.fields inner := by
  induction h with
  | refl fields => exact .inl (.refl fields)
  | @step fields members inner key h _ _ ih =>
    have hm := hs (mem_allBranches_of_mem h.mem h.isField)
    rcases ih (Operations.allBranches_subset_branches hm) with ho | ho
    · have hr := Registry.references_apply ha (fieldName key)
        (Shape.render .asNeeded (Shape.ofFields known registry.references members))
      split at hr
      · rename_i hv
        exact .inr ⟨_, hm, hv, ho⟩
      · exact .inl (.step h hr ho)
    · exact .inr ho

/-- **A leaf that survives is used in a text of the endpoint**, in the type of an operation or in a
shared shape. -/
theorem Survives.uses {leaf : LeafField} (h : Survives known endpoint operations passes leaf)
    {name : List Char} (hu : Uses name (": " ++ leaf.text known).toList) :
    (∃ fields ∈ operations.trees, ∀ quoting, Uses name (Shape.render quoting (Shape.ofFields known
      (registryAfter known endpoint operations passes).references fields)).toList) ∨
    ∃ shared body, (registryAfter known endpoint operations passes).registered.value? shared =
      some body ∧ Uses name body.toList := by
  cases h with
  | inTree hm ho hl =>
    rcases writtenOut_or_shared (idle_registryAfter known endpoint operations passes).active ho
      (allBranches_subset_of_mem_trees hm) with ho | ⟨branch, -, hv, ho⟩
    · exact .inl ⟨_, hm, ho.uses (hl.uses hu)⟩
    · exact .inr ⟨_, _, hv, ho.uses (hl.uses hu) _⟩
  | inShared hj hm hs ho hl => exact .inr ⟨_, _, hs, ho.uses (hl.uses hu) _⟩

end Survives

end Operations

end SoapTypes
