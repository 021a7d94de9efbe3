import SoapTypes.Proofs.Imports

/-!
# Endpoints whose imports are types of leaves

The names to import are looked for in texts, and there the name of a field, a comment, a literal or
a reference can look like the type of a field. An endpoint is legible if none of them does; then
each name that it imports is the type of a leaf. Otherwise it may import names that are no types.

* `Operations.exists_object_of_tree` and `exists_object_of_shared`: whatever a text of an endpoint
  uses stands in one of its objects.
* `cut_of_uses_reference`: what is read from a reference is in its namespace.
* `Legible.of_usedIn`: in a legible endpoint this is the type of a leaf, or a reference.
* `Catalog.imports_leaf_types`: what a legible endpoint imports.
* `Catalog.imports_other_names`: an endpoint that is not legible imports a word of a literal and the
  name of a shape of its own.
-/

namespace SoapTypes

open Text

/-! ### Objects of an endpoint -/

namespace FieldTree

mutual

/-- A branch below a member has the name of this member, or that of a field of a branch there. -/
theorem exists_entry_of_mem_branches (key : String) :
    ∀ {tree : FieldTree} {branch : Branch}, branch ∈ tree.branches key →
      fieldName key = branch.name ∨ ∃ outer ∈ tree.branches key, ∃ entry ∈ outer.fields,
        isMetadata entry.1 = false ∧ fieldName entry.1 = branch.name
  | .leaf _, _, hm => by simp [branches] at hm
  | .branch members, inner, hm => by
    rw [branches] at hm ⊢
    rcases List.mem_append.1 hm with hm | hm
    · right
      rcases exists_entry_of_mem_allBranches hm with h | ⟨outer, ho, h⟩
      · exact ⟨_, List.mem_append_right _ (List.mem_singleton_self _), h⟩
      · exact ⟨outer, List.mem_append_left _ ho, h⟩
    · rw [List.mem_singleton.1 hm]
      exact .inl rfl

/-- A branch below some members has the name of one of them, or of a field of a branch there. -/
theorem exists_entry_of_mem_allBranches :
    ∀ {members : List (String × FieldTree)} {branch : Branch}, branch ∈ allBranches members →
      (∃ entry ∈ members, isMetadata entry.1 = false ∧ fieldName entry.1 = branch.name) ∨
        ∃ outer ∈ allBranches members, ∃ entry ∈ outer.fields,
          isMetadata entry.1 = false ∧ fieldName entry.1 = branch.name
  | [], _, hm => by simp [allBranches] at hm
  | (key, tree) :: members, inner, hm => by
    by_cases hk : isMetadata key = true
    · rw [allBranches_cons_metadata hk] at hm ⊢
      exact (exists_entry_of_mem_allBranches hm).imp_left fun ⟨entry, he, h⟩ =>
        ⟨entry, List.mem_cons_of_mem _ he, h⟩
    · have hk : isMetadata key = false := by simpa using hk
      rw [allBranches_cons_field hk] at hm ⊢
      rcases List.mem_append.1 hm with hm | hm
      · rcases exists_entry_of_mem_branches key hm with h | ⟨outer, ho, h⟩
        · exact .inl ⟨_, List.mem_cons_self, hk, h⟩
        · exact .inr ⟨outer, List.mem_append_left _ ho, h⟩
      · rcases exists_entry_of_mem_allBranches hm with ⟨entry, he, h⟩ | ⟨outer, ho, h⟩
        · exact .inl ⟨entry, List.mem_cons_of_mem _ he, h⟩
        · exact .inr ⟨outer, List.mem_append_right _ ho, h⟩

end

/-- An object that is written out is the object itself or the fields of a branch below it. -/
theorem WrittenOut.eq_or_mem {known : KnownEnums} {references : References}
    {fields inner : Fields} (h : WrittenOut known references fields inner) :
    inner = fields ∨ ∃ branch ∈ allBranches fields, branch.fields = inner := by
  induction h with
  | refl => exact .inl rfl
  | step h _ _ ih =>
    have hm := mem_allBranches_of_mem h.mem h.isField
    rcases ih with rfl | ⟨branch, hb, rfl⟩
    · exact .inr ⟨_, hm, rfl⟩
    · exact .inr ⟨branch, allBranches_subset hm hb, rfl⟩

/-- The leaves of an object, those that are replaced among them. -/
def leafFields (fields : Fields) : List LeafField :=
  fields.filterMap fun entry => match entry.2 with
    | .leaf label => some ⟨targetNamespace? fields, isArrayKey entry.1, label⟩
    | .branch _ => none

theorem mem_leafFields {fields : Fields} {leaf : LeafField} (h : HasLeaf fields leaf) :
    leaf ∈ leafFields fields := by
  obtain ⟨key, hl, ha, hn⟩ := h
  refine List.mem_filterMap.2 ⟨_, hl.mem, ?_⟩
  rw [← ha, ← hn]

end FieldTree

open FieldTree

namespace Operations

/-- The objects of fields of all operations, those of their branches among them. -/
def objects (operations : Operations) : List Fields :=
  operations.trees ++ operations.branches.map Branch.fields

variable {known : KnownEnums} {endpoint : String} {operations : Operations} {passes : Nat}

theorem mem_objects_of_branch {branch : Branch} (h : branch ∈ operations.branches) :
    branch.fields ∈ operations.objects := List.mem_append_right _ (List.mem_map_of_mem h)

theorem mem_objects_of_writtenOut {references : References} {fields inner : Fields}
    (h : WrittenOut known references fields inner) (hm : fields ∈ operations.objects)
    (hs : allBranches fields ⊆ operations.branches) : inner ∈ operations.objects := by
  rcases h.eq_or_mem with rfl | ⟨branch, hb, rfl⟩
  · exact hm
  · exact mem_objects_of_branch (hs hb)

/-- The name of a branch is that of a field. -/
theorem exists_entry_of_mem_branches {branch : Branch} (h : branch ∈ operations.branches) :
    ∃ fields ∈ operations.objects, ∃ entry ∈ fields,
      isMetadata entry.1 = false ∧ fieldName entry.1 = branch.name := by
  obtain ⟨fields, hf, hb⟩ := mem_branches.1 h
  rcases exists_entry_of_mem_allBranches hb with h | ⟨outer, ho, h⟩
  · exact ⟨fields, List.mem_append_left _ hf, h⟩
  · exact ⟨_, mem_objects_of_branch (allBranches_subset_of_mem_trees hf ho), h⟩

/-- A leaf that is in a text at the end belongs to an object of the endpoint. -/
theorem Survives.exists_object {leaf : LeafField}
    (h : operations.Survives known endpoint passes leaf) :
    ∃ fields ∈ operations.objects, HasLeaf fields leaf := by
  cases h with
  | inTree hm ho hl =>
    exact ⟨_, mem_objects_of_writtenOut ho (List.mem_append_left _ hm)
      (allBranches_subset_of_mem_trees hm), hl⟩
  | inShared _ hm _ ho hl =>
    exact ⟨_, mem_objects_of_writtenOut ho (mem_objects_of_branch hm)
      (allBranches_subset_branches hm), hl⟩

/-- A name is used in an object of an endpoint, with the references it was written with. The leaves
of the object are in a text at the end, and its references belong to what is shared then. -/
structure UsedInObject (known : KnownEnums) (endpoint : String) (operations : Operations)
    (passes : Nat) (name : List Char) (references : References) (fields : Fields) : Prop where
  mem : fields ∈ operations.objects
  used : UsedIn known references fields name
  survives : ∀ leaf, HasLeaf fields leaf → operations.Survives known endpoint passes leaf
  shared : ∀ field text reference, references field text = some reference →
    (registryAfter known endpoint operations passes).registered ≠ [] ∧
      reference = sharedNamespace endpoint ++ ".I" ++ field

/-- What stands for a text in some pass is a reference into the namespace of the endpoint. -/
theorem eq_of_references {j : Nat} {field text reference : String}
    (h : (registryAfter known endpoint operations j).references field text = some reference) :
    (registryAfter known endpoint operations j).registered ≠ [] ∧
      reference = sharedNamespace endpoint ++ ".I" ++ field := by
  rw [Registry.references_apply (idle_registryAfter known endpoint operations j).active] at h
  split at h
  · rename_i hv
    refine ⟨fun he => ?_, ?_⟩
    · rw [he] at hv
      cases hv
    · rw [← Option.some.inj h, Registry.reference, ns_registryAfter]
  · cases h

variable {name : List Char}

/-- What the type of an operation uses stands in an object. -/
theorem exists_object_of_tree {quoting : Quoting} {fields : Fields} (hm : fields ∈ operations.trees)
    (hu : Uses name (Shape.render quoting (Shape.ofFields known
      (registryAfter known endpoint operations passes).references fields)).toList) :
    ∃ references inner, UsedInObject known endpoint operations passes name references inner := by
  obtain ⟨inner, ho, hin⟩ := exists_usedIn hu
  exact ⟨_, inner, mem_objects_of_writtenOut ho (List.mem_append_left _ hm)
    (allBranches_subset_of_mem_trees hm), hin, fun leaf hl => .inTree hm ho.inline hl,
    fun _ _ _ => eq_of_references⟩

/-- What a shared shape uses stands in an object, of the pass that its text was taken from. -/
theorem exists_object_of_shared {shared body : String}
    (hv : (registryAfter known endpoint operations passes).registered.value? shared = some body)
    (hu : Uses name body.toList) :
    ∃ references inner, UsedInObject known endpoint operations passes name references inner := by
  obtain ⟨j, branch, ht, rfl⟩ := exists_takenFrom hv
  obtain ⟨inner, ho, hin⟩ := exists_usedIn hu
  have hname := ht.name_eq
  subst hname
  refine ⟨_, inner, mem_objects_of_writtenOut ho (mem_objects_of_branch ht.mem)
    (allBranches_subset_branches ht.mem), hin,
    fun leaf hl => .inShared (Nat.le_of_lt ht.before) ht.mem hv ho hl,
    fun field text reference hr => ⟨fun he => ?_, (eq_of_references hr).2⟩⟩
  rw [he] at hv
  cases hv

end Operations

/-! ### References in a text -/

/-- A character that a reference cannot hold in front of its dot, or is not read across. -/
def cutsReference (c : Char) : Bool := ['.', ':', ';', '<', '>', '[', '\n'].contains c

theorem cutsReference_of_isTypeNamePart {c : Char} (h : isTypeNamePart c = true) (hc : c ≠ '.') :
    cutsReference c = false := by
  by_contra hcut
  rw [Bool.not_eq_false, cutsReference, List.contains_iff_mem] at hcut
  have hall : ∀ d ∈ ['.', ':', ';', '<', '>', '[', '\n'], isTypeNamePart d = true → d = '.' :=
    forall_of_all (by decide)
  exact hc (hall c hcut h)

/-- **Only names of its namespace are read from a reference.** -/
theorem cut_of_uses_reference {introduction ns rest name : List Char}
    (hi : introduction ∈ typeIntroductions) (hns : ∀ c ∈ ns, cutsReference c = false)
    (hrest : ∀ c ∈ rest, c ≠ ':' ∧ c ≠ '<')
    (hu : Uses name (introduction ++ (ns ++ '.' :: rest))) : (cut '.' name).1 = ns := by
  have hdot : '.' ∉ ns := fun hm => absurd (hns _ hm) (by decide)
  have hbehind : ¬ Uses name (ns ++ '.' :: rest) := by
    refine not_uses_of_not_introduced fun c hc => ?_
    rcases List.mem_append.1 hc with hc | hc
    · constructor <;> rintro rfl <;> exact absurd (hns _ hc) (by decide)
    · rcases List.mem_cons.1 hc with rfl | hc
      · decide
      · exact hrest c hc
  obtain ⟨use, hu, hin⟩ := hu
  have hprefix : use <+: introduction ++ (ns ++ '.' :: rest) :=
    (hu.prefix_or_infix hi hin).resolve_right fun h => hbehind ⟨use, hu, h⟩
  obtain ⟨introduction', rest', hi', hn, hr, heq⟩ := exists_useAt_iff.2 ⟨use, hu, hprefix⟩
  have hsame : ns ++ '.' :: rest = name ++ rest' := eq_of_introductions hi hi' heq
  by_cases hm : '.' ∈ name
  · obtain ⟨front, more, rfl, hfront⟩ := List.eq_append_cons_of_mem hm
    rw [cut_append hfront]
    rw [List.append_assoc, List.cons_append] at hsame
    refine (eq_of_append_cons (p := fun c => c != '.') ?_ ?_ rfl rfl hsame).1.symm
    · intro c hc
      simpa using fun e : c = '.' => hdot (e ▸ hc)
    · intro c hc
      simpa using fun e : c = '.' => hfront (e ▸ hc)
  · -- a name without a dot would end where the namespace does, but no name ends at a dot
    obtain ⟨d, ds, rfl, hd⟩ := exists_bracket_of_endsFieldType hr
    have hall : ∀ d ∈ ['[', ';', '>'], (!cutsReference d) = false ∧ d ≠ '.' :=
      forall_of_all (by decide)
    refine absurd (eq_of_append_cons (p := fun c => !cutsReference c) ?_ ?_ rfl (hall d hd).1
      hsame).2.symm (hall d hd).2
    · intro c hc
      rw [hns c hc]
      rfl
    · intro c hc
      rw [cutsReference_of_isTypeNamePart (hn.parts c hc) fun e => hm (e ▸ hc)]
      rfl

/-- A reference keeps its namespace and its dot when it is indented. -/
theorem exists_reference_rest {ns field written : String} (hns : '\n' ∉ ns.toList)
    (hf : ∀ c ∈ field.toList, c ≠ ':' ∧ c ≠ '<')
    (hw : written = ns ++ ".I" ++ field ∨ written = indent (ns ++ ".I" ++ field)) :
    ∃ rest, written.toList = ns.toList ++ '.' :: rest ∧ ∀ c ∈ rest, c ≠ ':' ∧ c ≠ '<' := by
  rcases hw with rfl | rfl
  · refine ⟨'I' :: field.toList, by simp [String.toList_append], fun c hc => ?_⟩
    rcases List.mem_cons.1 hc with rfl | hc
    · decide
    · exact hf c hc
  · have hmark : indent ".I" = ".I" := by decide
    refine ⟨'I' :: (indent field).toList, ?_, fun c hc => ?_⟩
    · rw [indent_append, indent_append, indent_of_single_line hns, hmark]
      simp [String.toList_append]
    · rw [List.mem_cons, toList_indent, List.mem_flatMap] at hc
      rcases hc with rfl | ⟨d, hd, hc⟩
      · decide
      · have hbreak : ∀ c ∈ '\n' :: indentStep.toList, c ≠ ':' ∧ c ≠ '<' :=
          forall_of_all (by decide)
        rw [indentChar] at hc
        split at hc
        · exact hbreak c hc
        · rw [List.mem_singleton.1 hc]
          exact hf d hd

/-- The same for the line of a reference, with any array around it. -/
theorem cut_of_uses_referenceText {array : Bool} {written : String} {ns rest name : List Char}
    (hw : written.toList = ns ++ '.' :: rest) (hns : ∀ c ∈ ns, cutsReference c = false)
    (hrest : ∀ c ∈ rest, c ≠ ':' ∧ c ≠ '<')
    (hu : Uses name (": " ++ Outline.referenceText array written).toList) :
    (cut '.' name).1 = ns := by
  have hclosed : ∀ close : String,
      (close.toList.all fun c => decide (c ≠ ':' ∧ c ≠ '<')) = true →
      ∀ c ∈ rest ++ close.toList, c ≠ ':' ∧ c ≠ '<' := fun close hclose c hc =>
    (List.mem_append.1 hc).elim (hrest c) (forall_of_all hclose c)
  unfold Outline.referenceText Shape.arrayOf at hu
  split at hu
  · split at hu
    · refine @cut_of_uses_reference ": ".toList _ _ _ List.mem_cons_self hns
        (hclosed "[];" (by decide)) ?_
      simpa [String.toList_append, hw] using hu
    · refine @cut_of_uses_reference "Array<".toList _ _ _
        (List.mem_cons_of_mem _ List.mem_cons_self) hns (hclosed ">;" (by decide)) ?_
      rw [← @uses_array_iff ": ".toList _ _ List.mem_cons_self]
      simpa [String.toList_append, hw] using hu
  · refine @cut_of_uses_reference ": ".toList _ _ _ List.mem_cons_self hns
      (hclosed ";" (by decide)) ?_
    simpa [String.toList_append, hw] using hu

/-! ### Legible endpoints -/

/-- An endpoint in which nothing but the type of a leaf, and references to its own shapes, can look
like the type of a field: no character cuts a reference in its name, the names of fields hold no
colon and no opening bracket, and the type of a leaf is all that is read from it. -/
structure Legible (known : KnownEnums) (endpoint : String) (operations : Operations) : Prop where
  name : ∀ c ∈ endpoint.toList, cutsReference c = false
  fieldNames : ∀ fields ∈ operations.objects, ∀ entry ∈ fields, isMetadata entry.1 = false →
    ∀ c ∈ (fieldName entry.1).toList, c ≠ ':' ∧ c ≠ '<'
  comments : ∀ fields ∈ operations.objects, ∀ leaf comment, HasLeaf fields leaf →
    leaf.comment = some comment → typeReferences comment = []
  types : ∀ fields ∈ operations.objects, ∀ leaf, HasLeaf fields leaf →
    typeReferences (": " ++ leaf.text known) = [] ∨
      ∃ name type, leaf.text known = type ++ ";" ∧ ArrayType name type ∧ IsTypeName name.toList

namespace Legible

variable {known : KnownEnums} {endpoint : String} {operations : Operations} {passes : Nat}

theorem sharedNamespace (h : Legible known endpoint operations) :
    ∀ c ∈ (sharedNamespace endpoint).toList, cutsReference c = false := by
  intro c hc
  rw [SoapTypes.sharedNamespace, String.toList_append, List.mem_append] at hc
  have htypes : ∀ c ∈ "Types".toList, cutsReference c = false := forall_of_all (by decide)
  exact hc.elim (h.name c) (htypes c)

theorem not_uses {text name : String} (h : typeReferences text = [])
    (hp : name ∉ Primitive.names) : ¬ Uses name.toList text.toList := by
  intro hu
  have hm := mem_typeReferences_iff.2 ⟨hp, hu⟩
  rw [h] at hm
  cases hm

/-- **What a legible endpoint uses** is the type of a leaf, or in its own namespace. -/
theorem of_usedIn (h : Legible known endpoint operations) {references : References}
    {fields : Fields} {name : String} (hp : name ∉ Primitive.names)
    (hu : operations.UsedInObject known endpoint passes name.toList references fields) :
    (∃ leaf type, operations.Survives known endpoint passes leaf ∧
        leaf.text known = type ++ ";" ∧ ArrayType name type) ∨
      (registryAfter known endpoint operations passes).registered ≠ [] ∧
        Catalog.qualifier name = SoapTypes.sharedNamespace endpoint := by
  cases hu.used with
  | @property key tree hl huses =>
    have hfield := h.fieldNames fields hu.mem (key, tree) hl.mem hl.isField
    exact absurd huses (not_uses_of_not_introduced hfield)
  | comment hl hc huses => exact absurd huses (not_uses (h.comments fields hu.mem _ _ hl hc) hp)
  | @type leaf hl huses =>
    rcases h.types fields hu.mem leaf hl with hnone | ⟨found, type, ht, ha, hn⟩
    · exact absurd huses (not_uses hnone hp)
    · have heq := String.toList_inj.1 ((leaf.uses_iff ht ha hn).1 huses)
      exact .inl ⟨leaf, type, hu.survives leaf hl, ht, heq ▸ ha⟩
  | @reference key members reference written hl hr hw huses =>
    obtain ⟨hne, rfl⟩ := hu.shared _ _ _ hr
    have hbreak : '\n' ∉ (SoapTypes.sharedNamespace endpoint).toList := fun hm =>
      absurd (h.sharedNamespace _ hm) (by decide)
    have hfield := h.fieldNames fields hu.mem (key, .branch members) hl.mem hl.isField
    obtain ⟨rest, hwritten, hrest⟩ := exists_reference_rest hbreak hfield hw
    have hcut := cut_of_uses_referenceText hwritten h.sharedNamespace hrest huses
    refine .inr ⟨hne, ?_⟩
    rw [Catalog.qualifier_eq, hcut, String.ofList_toList]

/-- The heading of a shared shape uses nothing. -/
theorem uses_sharedDeclaration_iff (h : Legible known endpoint operations) {shared body : String}
    (hv : (registryAfter known endpoint operations passes).registered.value? shared = some body)
    {name : List Char} :
    Uses name (sharedDeclaration shared body).toList ↔ Uses name body.toList := by
  obtain ⟨j, branch, ht, rfl⟩ := exists_takenFrom hv
  obtain ⟨fields, hf, entry, he, hk, hname⟩ := Operations.exists_entry_of_mem_branches ht.mem
  have hheading : ¬ Uses name ("export type " ++ ("I" ++ shared) ++ " = ").toList := by
    refine not_uses_of_not_introduced fun c hc => ?_
    simp only [String.toList_append, List.mem_append] at hc
    have hfront : ∀ c ∈ "export type ".toList ++ "I".toList, c ≠ ':' ∧ c ≠ '<' :=
      forall_of_all (by decide)
    have hback : ∀ c ∈ " = ".toList, c ≠ ':' ∧ c ≠ '<' := forall_of_all (by decide)
    rcases hc with (hc | hc | hc) | hc
    · exact hfront c (List.mem_append_left _ hc)
    · exact hfront c (List.mem_append_right _ hc)
    · rw [← ht.name_eq, ← hname] at hc
      exact h.fieldNames fields hf entry he hk c hc
    · exact hback c hc
  have hbraces : InBraces (branch.text known
      (registryAfter known endpoint operations j).references).toList := inBraces_block _
  rw [sharedDeclaration, declaration, String.toList_append,
    ← List.append_nil (branch.text _ _).toList, hbraces.uses_append, or_iff_right hheading,
    or_iff_left not_uses_nil, List.append_nil]

end Legible

namespace Catalog

/-- **What a legible endpoint imports.** A description can be built, and for each endpoint of it
that is legible:

* each name that its file imports is no primitive, is an identifier if it has no dot, and is the
  type, with any arrays around it, of a leaf that is in a text at the end;
* no name of a shape that the endpoint shares is imported;
* the file is in the output, and has one import with all these names before all declarations, or
  none if there are no such names. -/
theorem imports_leaf_types (options : Options) {description : Description}
    (hd : description.Keyed) {service endpoint : String} {endpoints : Entries Operations}
    {operations : Operations} (hs : (service, endpoints) ∈ description)
    (he : (endpoint, operations) ∈ endpoints)
    (hl : Legible options.known endpoint operations) :
    ∃ catalog, (build options description empty).outcome = .ok catalog ∧
      let settled := settleEndpoint options endpoint operations
      let imports := catalog.endpointImports service endpoint
      let output := catalog.endpointOutput service endpoint (endpointFile service endpoint)
      (∀ name ∈ imports, name ∉ Primitive.names ∧
        ('.' ∉ name.toList → isIdentifier name.toList = true) ∧
        ∃ leaf type, operations.Survives options.known endpoint settled.passes.toNat leaf ∧
          leaf.text options.known = type ++ ";" ∧ ArrayType name type) ∧
      (∀ shared ∈ settled.registry.registered.keys,
        settled.registry.reference shared ∉ imports) ∧
      output ∈ catalog.outputs ∧ (imports ≠ [] → ImportsOnce imports output.blocks) ∧
      (imports = [] → ∀ block ∈ output.blocks, ∀ names, block ≠ importBlock names) := by
  obtain ⟨catalog, hb, hfrom⟩ := exists_builtFrom options hd
  have hat := hd.at?_of_mem hs he
  have hmem := fun name => @BuiltFrom.mem_endpointImports_iff _ _ _ _ _ _ hfrom hat
    (hd.operations _ hs _ he) name
  have hns := (settleEndpoint_spec options endpoint operations).2
  rw [registry_settleEndpoint] at hmem
  refine ⟨catalog, hb, fun name hn => ?_, fun shared hshared hn => ?_, hfrom.importsOnce hat⟩
  · obtain ⟨hforeign, hp, hused⟩ := (hmem name).1 hn
    have htype : IsTypeName name.toList := by
      rcases hused with ⟨_, -, hu⟩ | ⟨_, _, -, hu⟩
      · exact hu.isTypeName
      · exact hu.isTypeName
    have hobject : ∃ references inner, operations.UsedInObject options.known endpoint
        (settleEndpoint options endpoint operations).passes.toNat name.toList references inner := by
      rcases hused with ⟨fields, hm, hu⟩ | ⟨shared, body, hv, hu⟩
      · exact Operations.exists_object_of_tree hm hu
      · exact Operations.exists_object_of_shared hv ((hl.uses_sharedDeclaration_iff hv).1 hu)
    obtain ⟨references, inner, hu⟩ := hobject
    exact ⟨hp, isIdentifier_of_isTypeName htype, (hl.of_usedIn hp hu).resolve_right hforeign⟩
  · refine ((hmem _).1 hn).1 ⟨fun hnil => ?_, ?_⟩
    · rw [registry_settleEndpoint, hnil] at hshared
      cases hshared
    · have hdot : '.' ∉ (sharedNamespace endpoint).toList := fun hm =>
        absurd (hl.sharedNamespace _ hm) (by decide)
      have hcut : (sharedNamespace endpoint ++ ".I" ++ shared).toList =
          (sharedNamespace endpoint).toList ++ '.' :: 'I' :: shared.toList := by
        simp [String.toList_append]
      rw [Registry.reference, hns, qualifier_eq, hcut, cut_append hdot, String.ofList_toList]

/-- A home with an owner. -/
def ownedHome : Operations :=
  [("Find", ⟨[], [("home", .branch [("owner", .leaf "owner|tns:Person")])]⟩)]

theorem legible_ownedHome : Legible [] "Book" ownedHome := by
  have hleaf : ∀ fields ∈ ownedHome.objects, ∀ leaf ∈ leafFields fields,
      leaf.comment = none ∧ leaf.text [] = "Person;" := by decide +kernel
  have hfield : ∀ fields ∈ ownedHome.objects, ∀ entry ∈ fields,
      ((fieldName entry.1).toList.all fun c => decide (c ≠ ':' ∧ c ≠ '<')) = true := by
    decide +kernel
  refine ⟨forall_of_all (by decide), fun fields hm entry he _ =>
      forall_of_all (hfield fields hm entry he), fun fields hm leaf comment hl hc => ?_,
    fun fields hm leaf hl => .inr ⟨"Person", "Person", ?_, .self, ?_⟩⟩
  · rw [(hleaf fields hm leaf (mem_leafFields hl)).1] at hc
    cases hc
  · exact (hleaf fields hm leaf (mem_leafFields hl)).2
  · exact (isTypeName_of_isIdentifier (by decide)).1

/-- The owner of a home is imported as the type of a leaf, and the home is not imported. -/
theorem imports_leaf_types_ownedHome :
    ∃ catalog, (build {} [("Directory", [("Book", ownedHome)])] empty).outcome = .ok catalog ∧
      Legible [] "Book" ownedHome ∧
      catalog.endpointImports "Directory" "Book" = ["Person"] ∧
      (∃ leaf type, ownedHome.Survives [] "Book" (settleEndpoint {} "Book" ownedHome).passes.toNat
        leaf ∧ leaf.text [] = type ++ ";" ∧ ArrayType "Person" type) ∧
      (settleEndpoint {} "Book" ownedHome).registry.reference "home" ∉
        catalog.endpointImports "Directory" "Book" := by
  have hd : Description.Keyed [("Directory", [("Book", ownedHome)])] := by decide
  obtain ⟨catalog, hb, hnames, hshared, -⟩ :=
    imports_leaf_types {} hd List.mem_cons_self List.mem_cons_self legible_ownedHome
  have h : (build {} [("Directory", [("Book", ownedHome)])] empty).outcome.toOption.map
      (fun catalog => catalog.endpointImports "Directory" "Book") = some ["Person"] := by
    decide +kernel
  rw [hb] at h
  have himports : catalog.endpointImports "Directory" "Book" = ["Person"] := Option.some.inj h
  exact ⟨catalog, hb, legible_ownedHome, himports,
    (hnames "Person" (himports ▸ List.mem_cons_self)).2.2, hshared "home" (by decide +kernel)⟩

/-- A choice of two literals, one of which looks like a field, and a shape that is shared. -/
def misread : Operations :=
  [("First", ⟨[("kind", .leaf "Kind|tns:Kind|a: Foo;,b")],
    [("a", .branch [("x", .leaf "string")])]⟩)]

/-- **An endpoint that imports other names**: a word of a literal, and the name of a shape of its
own, as there is a dot in the name of the endpoint. No leaf of it has one of these types. -/
theorem imports_other_names :
    ∃ catalog, Description.Keyed [("Directory", [("Book.v2", misread)])] ∧
      (build {} [("Directory", [("Book.v2", misread)])] empty).outcome = .ok catalog ∧
      catalog.endpointImports "Directory" "Book.v2" = ["Foo", "Book.v2Types.Ia"] ∧
      "a" ∈ (settleEndpoint {} "Book.v2" misread).registry.registered.keys ∧
      (settleEndpoint {} "Book.v2" misread).registry.reference "a" = "Book.v2Types.Ia" ∧
      ∀ name ∈ ["Foo", "Book.v2Types.Ia"], ∀ leaf type,
        misread.Survives [] "Book.v2" (settleEndpoint {} "Book.v2" misread).passes.toNat leaf →
        leaf.text [] = type ++ ";" → ¬ ArrayType name type := by
  have hd : Description.Keyed [("Directory", [("Book.v2", misread)])] := by decide
  obtain ⟨catalog, hb, -⟩ := exists_builtFrom {} hd
  have h : (build {} [("Directory", [("Book.v2", misread)])] empty).outcome.toOption.map
      (fun catalog => catalog.endpointImports "Directory" "Book.v2") =
        some ["Foo", "Book.v2Types.Ia"] := by
    decide +kernel
  rw [hb] at h
  refine ⟨catalog, hd, hb, Option.some.inj h, by decide +kernel, by decide +kernel, ?_⟩
  intro name hn leaf type hsurvives ht ha
  -- the types of the leaves begin with a quote and with the letter of a primitive
  have hleaf : ∀ fields ∈ misread.objects, ∀ leaf ∈ leafFields fields,
      (leaf.text []).toList.head? ∈ [some '"', some 's'] := by decide +kernel
  obtain ⟨fields, hm, hl⟩ := hsurvives.exists_object
  have hfirst := hleaf fields hm leaf (mem_leafFields hl)
  obtain ⟨rest, hrest⟩ := ha.exists_rest
  rw [ht] at hfirst
  rcases hrest with rfl | rfl
  · simp only [List.mem_cons, List.not_mem_nil, or_false] at hn
    rcases hn with rfl | rfl <;> simp [String.toList_append] at hfirst
  · simp [String.toList_append] at hfirst

end Catalog

end SoapTypes
