import SoapTypes.Proofs.GeneratedCatalogs
import SoapTypes.Proofs.PlacedReferences
import SoapTypes.Proofs.WrittenLeaves

/-!
# What the file of an endpoint imports

The file of an endpoint imports the names that its texts use as types of fields, apart from
primitives and from names in its own namespace. The texts are those of the types of its operations
and of its shared shapes.

* `Catalog.BuiltFrom.mem_endpointImports_iff`: which names these are.
* `Catalog.importsOnce_endpointBlocks`: the file has one import of them, before its declarations.
* `Catalog.leaf_types_imported`: the type of every leaf that is written is among them.
-/

namespace SoapTypes

open Text

/-! ### Names to import -/

theorem nodup_addNew {names more : List String} (h : names.Nodup) : (addNew names more).Nodup := by
  induction more generalizing names with
  | nil => exact h
  | cons first more ih =>
    refine @ih (if names.contains first then names else names ++ [first]) ?_
    split
    · exact h
    · rename_i hc
      rw [List.contains_iff_mem] at hc
      refine List.nodup_append.2 ⟨h, by simp, fun name hn other ho => ?_⟩
      rw [List.mem_singleton.1 ho]
      exact fun e => hc (e ▸ hn)

namespace Catalog

theorem qualifier_eq (name : String) : qualifier name = String.ofList (cut '.' name.toList).1 := rfl

theorem qualifier_of_not_mem {name : String} (h : '.' ∉ name.toList) : qualifier name = name := by
  rw [qualifier_eq, cut_of_not_mem h, String.ofList_toList]

theorem mem_importsOf {namespaces : Namespaces} {texts : List String} {name : String} :
    name ∈ importsOf namespaces texts ↔ namespaces.has (qualifier name) = false ∧
      name ∉ Primitive.names ∧ ∃ text ∈ texts, Uses name.toList text.toList := by
  simp only [importsOf, mem_addNew, List.not_mem_nil, false_or, List.mem_flatMap, List.mem_filter,
    mem_typeReferences_iff, Bool.not_eq_true']
  constructor
  · rintro ⟨text, ht, ⟨hn, hu⟩, hq⟩
    exact ⟨hq, hn, text, ht, hu⟩
  · rintro ⟨hq, hn, text, ht, hu⟩
    exact ⟨text, ht, ⟨hn, hu⟩, hq⟩

/-! ### The texts of an endpoint -/

section Texts

variable {options : Options} {registry : Registry} {operations : Operations}

theorem inputType_ne_finishedText (operation : String) :
    Signature.inputType operation ≠ finishedText := by
  intro h
  have hc := congrArg (fun s => s.toList.head?) h
  simp [Signature.inputType, finishedText, String.toList_append] at hc

theorem outputType_ne_finishedText (operation : String) :
    Signature.outputType operation ≠ finishedText := by
  intro h
  have hc := congrArg (fun s => s.toList.head?) h
  simp [Signature.outputType, finishedText, String.toList_append] at hc

/-- The types of operations are not finished texts. -/
theorem ne_finishedText_of_mem {entry : String × String}
    (h : entry ∈ Entries.putAll [] (operations.flatMap (operationTypes options registry))) :
    entry.1 ≠ finishedText := by
  obtain ⟨operation, -, hm⟩ := List.mem_flatMap.1 ((Entries.mem_putAll h).resolve_left (by simp))
  simp only [operationTypes, List.mem_cons, List.not_mem_nil, or_false] at hm
  rcases hm with rfl | rfl
  · exact inputType_ne_finishedText _
  · exact outputType_ne_finishedText _

/-- The types of operations have the texts of their objects. -/
theorem mem_values_operationTypes_iff (ho : Entries.Distinct operations) {text : String} :
    text ∈ Entries.values (Entries.putAll [] (operations.flatMap
        (operationTypes options registry))) ↔
      ∃ fields ∈ operations.trees, text = registry.render options fields := by
  constructor
  · intro h
    obtain ⟨⟨name, text⟩, hm, rfl⟩ := List.mem_map.1 h
    obtain ⟨operation, hop, hm⟩ :=
      List.mem_flatMap.1 ((Entries.mem_putAll hm).resolve_left (by simp))
    simp only [operationTypes, List.mem_cons, Prod.mk.injEq, List.not_mem_nil, or_false] at hm
    rcases hm with ⟨-, rfl⟩ | ⟨-, rfl⟩
    · exact ⟨_, List.mem_flatMap.2 ⟨operation, hop, List.mem_cons_self⟩, rfl⟩
    · exact ⟨_, List.mem_flatMap.2 ⟨operation, hop, List.mem_cons_of_mem _ List.mem_cons_self⟩, rfl⟩
  · rintro ⟨fields, hm, rfl⟩
    obtain ⟨operation, hop, hm⟩ := List.mem_flatMap.1 hm
    have htype : ∃ name, (name, registry.render options fields) ∈
        operationTypes options registry operation := by
      simp only [List.mem_cons, List.not_mem_nil, or_false] at hm
      rcases hm with rfl | rfl
      · exact ⟨_, List.mem_cons_self⟩
      · exact ⟨_, List.mem_cons_of_mem _ List.mem_cons_self⟩
    obtain ⟨name, ht⟩ := htype
    have hv := @Entries.value?_putAll_of_mem _ [] _ _ _ (List.mem_flatMap.2 ⟨operation, hop, ht⟩)
      fun other hother => by
        obtain ⟨second, hsecond, hother⟩ := List.mem_flatMap.1 hother
        exact eq_of_mem_operationTypes hother ht (Entries.eq_of_key_eq ho hsecond hop)
    exact List.mem_map.2 ⟨_, Entries.mem_of_value? hv, rfl⟩

/-- The namespaces of an endpoint are that of its shared shapes, if there are any. -/
theorem has_addShared_iff {name : String} :
    Entries.has (addShared registry []) name = true ↔
      registry.registered ≠ [] ∧ name = registry.ns := by
  unfold addShared
  split
  · rename_i he
    simp [List.isEmpty_iff.1 he, Entries.has]
  · rename_i he
    have hne : registry.registered ≠ [] := fun e => he (List.isEmpty_iff.2 e)
    rw [putShared, Entries.has_put]
    simp only [Entries.has, Entries.value?_nil, Option.isSome_none, Bool.or_false,
      decide_eq_true_eq]
    exact ⟨fun h => ⟨hne, h.symm⟩, fun h => h.2.symm⟩

/-- They hold the declarations of the shared shapes. -/
theorem mem_values_addShared_iff (hr : registry.registered.Distinct) {text : String} :
    text ∈ (Entries.values (addShared registry [])).flatMap Entries.values ↔
      ∃ shared body, registry.registered.value? shared = some body ∧
        text = sharedDeclaration shared body := by
  unfold addShared
  split
  · rename_i he
    simp [List.isEmpty_iff.1 he, Entries.values]
  · rw [putShared, Entries.value?_nil, Option.getD_none]
    simp only [Entries.put, Entries.values, List.map_cons, List.map_nil, List.flatMap_cons,
      List.flatMap_nil, List.append_nil]
    constructor
    · intro h
      obtain ⟨entry, hm, rfl⟩ := List.mem_map.1 h
      obtain ⟨⟨shared, body⟩, he, rfl⟩ :=
        List.mem_map.1 ((Entries.mem_putAll hm).resolve_left (by simp))
      exact ⟨shared, body, Entries.value?_of_mem hr he, rfl⟩
    · rintro ⟨shared, body, hv, rfl⟩
      have hput := value?_putShared hr hv []
      rw [putShared, Entries.value?_put, if_pos rfl, Option.bind_some, Entries.value?_nil,
        Option.getD_none] at hput
      exact List.mem_map.2 ⟨_, Entries.mem_of_value? hput, rfl⟩

/-- **The texts that are looked through** are those of the objects of the operations and the
declarations of the shared shapes. -/
theorem mem_referringTexts_iff (ho : Entries.Distinct operations)
    (hr : registry.registered.Distinct) {text : String} :
    text ∈ referringTexts (Entries.putAll [] (operations.flatMap
        (operationTypes options registry))) (addShared registry []) ↔
      (∃ fields ∈ operations.trees, text = registry.render options fields) ∨
        ∃ shared body, registry.registered.value? shared = some body ∧
          text = sharedDeclaration shared body := by
  have hall : (Entries.putAll [] (operations.flatMap (operationTypes options registry))).filter
      (fun entry => entry.1 ≠ finishedText) =
        Entries.putAll [] (operations.flatMap (operationTypes options registry)) :=
    List.filter_eq_self.2 fun entry hm => decide_eq_true (ne_finishedText_of_mem hm)
  rw [referringTexts, hall, List.mem_append, mem_values_operationTypes_iff ho,
    mem_values_addShared_iff hr]

end Texts

/-! ### Blocks -/

/-- An import of names from the module of common types, as it should be written. -/
def importLine (names : List String) : String :=
  "import \x7b " ++ joinWith ", " names ++ " \x7d from '../Types';"

theorem importBlock_eq (names : List String) : importBlock names = importLine names := by
  have hmodule : " \x7d from '" ++ typesModule ++ "';" = " \x7d from '../Types';" := by decide
  rw [importBlock, importLine, ← hmodule]
  simp only [String.append_assoc]

/-- The blocks of a file have one import from the module of common types, with some names, and
nothing but the import of the client comes before it. -/
def ImportsOnce (names blocks : List String) : Prop :=
  ∃ before after, blocks = before ++ importLine names :: after ∧
    (before = [] ∨ before = ["import \x7b Client \x7d from 'soap';"]) ∧
    ∀ block ∈ before ++ after, ∀ others, block ≠ importLine others

/-- The names that the file of an endpoint imports from the module of common types. -/
def endpointImports (catalog : Catalog) (service endpoint : String) : List String :=
  importsOf ((catalog.namespaces.at? service endpoint).getD [])
    (referringTexts ((catalog.types.at? service endpoint).getD [])
      ((catalog.namespaces.at? service endpoint).getD []))

theorem nodup_endpointImports (catalog : Catalog) (service endpoint : String) :
    (catalog.endpointImports service endpoint).Nodup := nodup_addNew List.nodup_nil

theorem clientImport_ne_importBlock (names : List String) : clientImport ≠ importBlock names := by
  intro h
  have hl := congrArg (fun s => (s.toList.reverse.take 3)) h
  simp [clientImport, importBlock, typesModule, String.toList_append] at hl

theorem ne_importBlock_of_head {block : String} (h : block.toList.head? = some 'e')
    (names : List String) : block ≠ importBlock names := by
  rintro rfl
  simp [importBlock, String.toList_append] at h

section Blocks

variable {endpoint : String} {methods types : Entries String} {namespaces : Namespaces}

/-- Types, the interface of methods and namespaces are declarations that are exported. -/
theorem head_declarations (ht : ∀ entry ∈ types, entry.1 ≠ finishedText) :
    ∀ block ∈ types.map typeBlock ++
        ((if methods.isEmpty then [] else [interfaceBlock endpoint methods]) ++
          namespaces.filterMap namespaceBlock?), block.toList.head? = some 'e' := by
  intro block hm
  rw [List.mem_append, List.mem_append, List.mem_map, List.mem_filterMap] at hm
  rcases hm with ⟨entry, he, rfl⟩ | hm | ⟨entry, -, hb⟩
  · rw [typeBlock, if_neg (ht entry he)]
    simp [declaration, String.toList_append]
  · split at hm
    · cases hm
    · rw [List.mem_singleton.1 hm]
      simp [interfaceBlock, bracedBlock, String.toList_append]
  · unfold namespaceBlock? at hb
    split at hb
    · cases hb
    · rw [← Option.some.inj hb]
      simp [bracedBlock, String.toList_append]

/-- **The blocks of an endpoint import its names once**, before all declarations, if there are any,
and there is no such import otherwise. -/
theorem importsOnce_endpointBlocks (ht : ∀ entry ∈ types, entry.1 ≠ finishedText) :
    let imports := importsOf namespaces (referringTexts types namespaces)
    (imports ≠ [] → ImportsOnce imports (endpointBlocks endpoint methods types namespaces)) ∧
      (imports = [] → ∀ block ∈ endpointBlocks endpoint methods types namespaces,
        ∀ names, block ≠ importBlock names) := by
  intro imports
  have hblocks : endpointBlocks endpoint methods types namespaces =
      (if methods.isEmpty then [] else [clientImport]) ++
        ((if imports.isEmpty then [] else [importBlock imports]) ++
          (types.map typeBlock ++
            ((if methods.isEmpty then [] else [interfaceBlock endpoint methods]) ++
              namespaces.filterMap namespaceBlock?))) := by
    simp only [endpointBlocks, imports, List.append_assoc]
  rw [hblocks]
  have hbefore : (if methods.isEmpty then [] else [clientImport]) = [] ∨
      (if methods.isEmpty then [] else [clientImport]) = [clientImport] := by
    split
    · exact .inl rfl
    · exact .inr rfl
  have hother : ∀ block ∈ (if methods.isEmpty then [] else [clientImport]) ++
      (types.map typeBlock ++
        ((if methods.isEmpty then [] else [interfaceBlock endpoint methods]) ++
          namespaces.filterMap namespaceBlock?)), ∀ names, block ≠ importBlock names := by
    intro block hm
    rcases List.mem_append.1 hm with hm | hm
    · rcases hbefore with he | he
      · rw [he] at hm
        cases hm
      · rw [he] at hm
        rw [List.mem_singleton.1 hm]
        exact clientImport_ne_importBlock
    · exact ne_importBlock_of_head (head_declarations ht block hm)
  constructor
  · intro hne
    rw [if_neg (mt List.isEmpty_iff.1 hne), importBlock_eq]
    simp only [importBlock_eq] at hother
    exact ⟨_, _, rfl, hbefore, hother⟩
  · intro he
    rw [if_pos (List.isEmpty_iff.2 he)]
    exact hother

end Blocks

/-! ### The imports of an endpoint -/

namespace BuiltFrom

variable {options : Options} {description : Description} {catalog : Catalog}
  {service endpoint : String} {operations : Operations}

/-- **The names that are imported** for an endpoint of a description: they are no primitives, belong
to no namespace of the endpoint, and are used in the type of an operation or in a shared shape. -/
theorem mem_endpointImports_iff (h : BuiltFrom options description catalog)
    (hat : Table.at? description service endpoint = some operations)
    (ho : Entries.Distinct operations) {name : String} :
    let registry := (settleEndpoint options endpoint operations).registry
    name ∈ catalog.endpointImports service endpoint ↔
      ¬ (registry.registered ≠ [] ∧ qualifier name = sharedNamespace endpoint) ∧
      name ∉ Primitive.names ∧
      ((∃ fields ∈ operations.trees,
          Uses name.toList (registry.render options fields).toList) ∨
        ∃ shared body, registry.registered.value? shared = some body ∧
          Uses name.toList (sharedDeclaration shared body).toList) := by
  intro registry
  obtain ⟨hidle, hns⟩ := settleEndpoint_spec options endpoint operations
  have hf := h.filled service endpoint operations hat
  have htypes : (catalog.types.at? service endpoint).getD [] =
      Entries.putAll [] (operations.flatMap (operationTypes options registry)) := by
    rw [hf.types]
    rfl
  have hnamespaces : (catalog.namespaces.at? service endpoint).getD [] =
      addShared registry [] := by
    rw [hf.namespaces]
    rfl
  rw [endpointImports, htypes, hnamespaces, mem_importsOf, ← hns, ← has_addShared_iff,
    Bool.not_eq_true]
  refine and_congr_right fun _ => and_congr_right fun _ => ?_
  constructor
  · rintro ⟨text, ht, hu⟩
    rcases (mem_referringTexts_iff ho hidle.distinct).1 ht with
      ⟨fields, hm, rfl⟩ | ⟨shared, body, hv, rfl⟩
    · exact .inl ⟨fields, hm, hu⟩
    · exact .inr ⟨shared, body, hv, hu⟩
  · rintro (⟨fields, hm, hu⟩ | ⟨shared, body, hv, hu⟩)
    · exact ⟨_, (mem_referringTexts_iff ho hidle.distinct).2 (.inl ⟨fields, hm, rfl⟩), hu⟩
    · exact ⟨_, (mem_referringTexts_iff ho hidle.distinct).2 (.inr ⟨shared, body, hv, rfl⟩), hu⟩

/-- The file of an endpoint is in the output and imports the names once. -/
theorem importsOnce (h : BuiltFrom options description catalog)
    (hat : Table.at? description service endpoint = some operations) :
    let output := catalog.endpointOutput service endpoint (endpointFile service endpoint)
    let imports := catalog.endpointImports service endpoint
    output ∈ catalog.outputs ∧ (imports ≠ [] → ImportsOnce imports output.blocks) ∧
      (imports = [] → ∀ block ∈ output.blocks, ∀ names, block ≠ importBlock names) := by
  have hf := h.filled service endpoint operations hat
  refine ⟨endpointOutput_mem_outputs hf.files, importsOnce_endpointBlocks fun entry hm => ?_⟩
  rw [hf.types] at hm
  exact ne_finishedText_of_mem hm

end BuiltFrom

end Catalog

/-! ### Types of leaves are imported -/

theorem isTypeName_of_isIdentifier {name : List Char} (h : isIdentifier name = true) :
    IsTypeName name ∧ '.' ∉ name := by
  cases name with
  | nil => cases h
  | cons c cs =>
    rw [isIdentifier, Bool.and_eq_true, List.all_eq_true] at h
    refine ⟨⟨c, cs, rfl, h.1, fun d hd => by simp [isTypeNamePart, h.2 d hd]⟩, fun hm => ?_⟩
    rcases List.mem_cons.1 hm with rfl | hm
    · exact absurd h.1 (by decide)
    · exact absurd (h.2 _ hm) (by decide)

theorem isIdentifier_of_isTypeName {name : List Char} (h : IsTypeName name) (hd : '.' ∉ name) :
    isIdentifier name = true := by
  obtain ⟨c, cs, rfl, hc, hcs⟩ := h
  rw [isIdentifier, hc, Bool.true_and, List.all_eq_true]
  intro d hm
  have hdot : d ≠ '.' := fun e => hd (List.mem_cons_of_mem _ (e ▸ hm))
  simpa [isTypeNamePart, hdot] using hcs d hm

/-- A leaf with a type uses its name and no other one. -/
theorem LeafField.uses_iff {known : KnownEnums} {leaf : LeafField} {name type : String}
    (ht : leaf.text known = type ++ ";") (ha : ArrayType name type) (hn : IsTypeName name.toList)
    {other : List Char} : Uses other (": " ++ leaf.text known).toList ↔ other = name.toList := by
  have hintroduced : ": ".toList ∈ typeIntroductions := List.mem_cons_self
  have hends : endsFieldType ";".toList = true := by decide
  rw [ht, String.toList_append, String.toList_append]
  exact ha.uses_iff hn hintroduced hends (forall_of_all (by decide))

namespace Catalog

/-- **The types of leaves are imported.** A description can be built, and for each endpoint of it
and each leaf that is in a text of the endpoint at the end: if the type of the leaf is an
identifier, with any arrays around it, that is no primitive and not the namespace of the endpoint,
then the file of the endpoint has one import from the module of common types, before all
declarations, and this lists the identifier once. -/
theorem leaf_types_imported (options : Options) {description : Description}
    (hd : description.Keyed) {service endpoint : String} {endpoints : Entries Operations}
    {operations : Operations} (hs : (service, endpoints) ∈ description)
    (he : (endpoint, operations) ∈ endpoints) :
    ∃ catalog, (build options description empty).outcome = .ok catalog ∧
      ∀ leaf name type,
        operations.Survives options.known endpoint
          (settleEndpoint options endpoint operations).passes.toNat leaf →
        leaf.text options.known = type ++ ";" → ArrayType name type →
        isIdentifier name.toList = true → name ∉ Primitive.names →
        name ≠ sharedNamespace endpoint →
        let output := catalog.endpointOutput service endpoint (endpointFile service endpoint)
        output ∈ catalog.outputs ∧
          ImportsOnce (catalog.endpointImports service endpoint) output.blocks ∧
          (catalog.endpointImports service endpoint).count name = 1 := by
  obtain ⟨catalog, hb, hfrom⟩ := exists_builtFrom options hd
  have hat := hd.at?_of_mem hs he
  refine ⟨catalog, hb, fun leaf name type hsurvives ht ha hn hp hne => ?_⟩
  obtain ⟨hname, hdot⟩ := isTypeName_of_isIdentifier hn
  have hmem : name ∈ catalog.endpointImports service endpoint := by
    refine (hfrom.mem_endpointImports_iff hat (hd.operations _ hs _ he)).2
      ⟨fun hq => hne (qualifier_of_not_mem hdot ▸ hq.2), hp, ?_⟩
    rw [registry_settleEndpoint]
    rcases hsurvives.uses ((leaf.uses_iff ht ha hname).2 rfl) with
      ⟨fields, hm, hu⟩ | ⟨shared, body, hv, hu⟩
    · exact .inl ⟨fields, hm, hu _⟩
    · refine .inr ⟨shared, body, hv, hu.mono ?_⟩
      rw [sharedDeclaration, declaration, String.toList_append]
      exact (List.suffix_append _ _).isInfix
  obtain ⟨hout, hone, -⟩ := hfrom.importsOnce hat
  exact ⟨hout, hone (List.ne_nil_of_mem hmem),
    by rw [(nodup_endpointImports _ _ _).count, if_pos hmem]⟩

/-- A home that a later field of its name replaces. -/
def replacedHome : Operations :=
  [("Find", ⟨[], [("home", .branch [("street", .leaf "street|tns:Street")]),
    ("home[]", .leaf "string")]⟩)]

/-- A leaf that is left in a shared shape only is imported. -/
theorem leaf_types_imported_replacedHome :
    ∃ catalog, (build {} [("Directory", [("Book", replacedHome)])] empty).outcome = .ok catalog ∧
      (catalog.endpointImports "Directory" "Book").count "Street" = 1 := by
  have hd : Description.Keyed [("Directory", [("Book", replacedHome)])] := by decide
  obtain ⟨catalog, hb, h⟩ := leaf_types_imported {} hd List.mem_cons_self List.mem_cons_self
  have hsurvives : replacedHome.Survives [] "Book"
      (settleEndpoint {} "Book" replacedHome).passes.toNat ⟨none, false, "street|tns:Street"⟩ := by
    refine @Operations.Survives.inShared _ _ _ _ _ 0
      ⟨"home", false, [("street", .leaf "street|tns:Street")]⟩ _ (Nat.zero_le _) ?_
      (by decide +kernel) (.refl _) ⟨"street", .head (by decide) (by simp), by decide, rfl⟩
    refine Operations.mem_branches.2 ⟨_, List.mem_flatMap.2 ⟨_, List.mem_cons_self,
      List.mem_cons_of_mem _ List.mem_cons_self⟩, ?_⟩
    have hm := @FieldTree.mem_allBranches_of_mem
      [("home", .branch [("street", .leaf "street|tns:Street")]), ("home[]", .leaf "string")] "home"
      _ List.mem_cons_self (by decide)
    have hname : FieldTree.fieldName "home" = "home" := by decide
    have harray : FieldTree.isArrayKey "home" = false := by decide
    rwa [hname, harray] at hm
  exact ⟨catalog, hb, (h ⟨none, false, "street|tns:Street"⟩ "Street" "Street" hsurvives (by decide)
    .self (by decide) (by decide) (by decide)).2.2⟩

end Catalog

end SoapTypes
