import Mathlib.Data.List.Nodup
import SoapTypes.Proofs.LatestEntries
import SoapTypes.Proofs.LegibleEndpoints
import SoapTypes.Proofs.QuotedProperties

/-!
# The names of shared types

A shape that is shared under a field name is declared, and referred to, under the field name behind
an `I`. The field name is taken as it is. So different names stay apart, and what is declared is what
is referred to; but the name of the type is an identifier only if the field name holds nothing that
an identifier could not hold.

* `FieldTree.RefersAt` says which property names have a reference behind them.
* `FieldTree.exists_reference_parts`: what is written there, at any depth.
* `Catalog.shared_type_names` says so of all declarations and references of an endpoint.
* `Catalog.full_name_shared`: a declaration and a reference that are no identifiers.
-/

namespace SoapTypes

open Text

/-- The name of the type that is shared under a field name. -/
def sharedTypeName (name : String) : String := "I" ++ name

theorem sharedTypeName_injective : Function.Injective sharedTypeName := by
  intro a b h
  have hl := congrArg String.toList h
  simp only [sharedTypeName, String.toList_append, List.append_right_inj] at hl
  exact String.toList_inj.1 hl

/-- The name of a shared type is an identifier if and only if the field name could stand inside
one. -/
theorem isIdentifier_sharedTypeName_iff {name : String} :
    isIdentifier (sharedTypeName name).toList = true ↔
      ∀ c ∈ name.toList, isIdentifierPart c = true := by
  have hi : isIdentifierStart 'I' = true := by decide
  simp [sharedTypeName, String.toList_append, isIdentifier, hi]

theorem sharedDeclaration_eq (name body : String) :
    sharedDeclaration name body = declaration (sharedTypeName name) body := rfl

/-- The namespace of an endpoint that is an identifier is one. -/
theorem isIdentifier_sharedNamespace {endpoint : String}
    (h : isIdentifier endpoint.toList = true) :
    isIdentifier (sharedNamespace endpoint).toList = true := by
  have htypes : "Types".toList.all isIdentifierPart = true := by decide
  rw [sharedNamespace, String.toList_append]
  cases hc : endpoint.toList with
  | nil => simp [hc, isIdentifier] at h
  | cons c cs =>
    rw [hc, isIdentifier, Bool.and_eq_true] at h
    rw [List.cons_append, isIdentifier, List.all_append, h.1, h.2, htypes]
    rfl

theorem oneLine_of_isIdentifierPart {s : String}
    (h : ∀ c ∈ s.toList, isIdentifierPart c = true) : OneLine s :=
  fun hm => absurd (h _ hm) (by decide)

/-! ### References in a text -/

/-- What stands behind a property name that refers to the type shared under it. In a block that is
moved the reference moves too, which shows if it has line breaks. -/
def PropertyAt.reference (ns : String) (array : Bool) (property : PropertyAt) : String :=
  let reference := ns ++ "." ++ sharedTypeName property.name
  indent^[property.depth]
    (": " ++ Outline.referenceText array (if array then indent reference else reference))

/-- A reference on one line is the same at any depth. -/
theorem PropertyAt.reference_of_oneLine {ns : String} (hns : OneLine ns) (array : Bool)
    {property : PropertyAt} (hn : OneLine property.name) :
    property.reference ns array =
      ": " ++ Outline.referenceText array (ns ++ "." ++ sharedTypeName property.name) := by
  have hreference : OneLine (ns ++ "." ++ sharedTypeName property.name) :=
    (hns.append (by decide)).append (OneLine.append (by decide) hn)
  rw [reference, indent_of_single_line hreference, ite_self]
  exact indent_iterate_of_oneLine
    (OneLine.append (by decide) (Outline.oneLine_referenceText hreference array)) _

namespace FieldTree

/-- A property name in the text of an object of fields has a reference behind it: the name is that
of a branch that is shared, in the object or in a branch that is written out. -/
inductive RefersAt (known : KnownEnums) (references : References) :
    Fields → PropertyAt → Bool → Prop where
  | field {fields members : Fields} {key reference : String}
      (h : LastField fields key (.branch members))
      (hr : references (fieldName key)
        (Shape.render .asNeeded (Shape.ofFields known references members)) = some reference) :
      RefersAt known references fields ⟨fieldName key, 0, false⟩ (isArrayKey key)
  | inside {fields members : Fields} {key : String} {property : PropertyAt} {array : Bool}
      (h : LastField fields key (.branch members))
      (hr : references (fieldName key)
        (Shape.render .asNeeded (Shape.ofFields known references members)) = none)
      (hp : RefersAt known references members property array) :
      RefersAt known references fields (property.inside (isArrayKey key)) array

section Parts

variable {known : KnownEnums} {references : References} {ns : String}

theorem exists_blockParts_eq {parts : List Part} {members : List (List Part)}
    (h : parts ∈ members) : ∃ front back, blockParts members = front ++ parts ++ back := by
  have hjoin : ∀ members : List (List Part), parts ∈ members → ∃ front back,
      (members.intersperse [.text Outline.lineSeparator]).flatten = front ++ parts ++ back := by
    intro members h
    induction members with
    | nil => cases h
    | cons member members ih =>
      cases members with
      | nil =>
        obtain rfl := List.mem_singleton.1 h
        exact ⟨[], [], by simp⟩
      | cons next members =>
        rw [List.intersperse_cons_cons, List.flatten_cons, List.flatten_cons]
        rcases List.mem_cons.1 h with rfl | h
        · exact ⟨[], _, rfl⟩
        · obtain ⟨front, back, he⟩ := ih h
          refine ⟨member ++ [.text Outline.lineSeparator] ++ front, back, ?_⟩
          rw [he]
          simp
  cases members with
  | nil => cases h
  | cons member members =>
    obtain ⟨front, back, he⟩ := hjoin (member :: members) h
    refine ⟨.text ("\x7b\n" ++ indentStep) :: front, back ++ [.text "\n\x7d"], ?_⟩
    rw [blockParts, he]
    simp

/-- The parts of a field that is not replaced are among those of the object. -/
theorem exists_bodyParts_eq (known : KnownEnums) (references : References) {fields : Fields}
    {key : String} {tree : FieldTree}
    (h : LastField fields key tree) :
    ∃ front back, bodyParts known references fields =
      front ++ partsOf known references (targetNamespace? fields) (isArrayKey key) (fieldName key)
        tree ++ back := by
  refine exists_blockParts_eq (List.mem_map.2 ⟨(fieldName key, _), ?_, rfl⟩)
  rw [partsOfAll_eq_eachField]
  exact mem_ofPairs_eachField_iff.2 ⟨key, tree, h, rfl, rfl⟩

/-- **Where a reference stands, the name of the shared type is written.** -/
theorem exists_reference_parts
    (hns : ∀ name text reference, references name text = some reference →
      reference = ns ++ "." ++ sharedTypeName name)
    {fields : Fields} {property : PropertyAt} {array : Bool}
    (h : RefersAt known references fields property array) :
    ∃ front back, bodyParts known references fields =
      front ++ .name property :: .text (property.reference ns array) :: back := by
  induction h with
  | @field fields members key reference hl hr =>
    obtain ⟨front, back, he⟩ := exists_bodyParts_eq known references hl
    obtain rfl := hns _ _ _ hr
    refine ⟨front, back, ?_⟩
    rw [he, partsOf_branch_of_some hr, List.append_assoc]
    rfl
  | @inside fields members key property array hl hr _ ih =>
    obtain ⟨front, back, he⟩ := exists_bodyParts_eq known references hl
    obtain ⟨inner, outer, hi⟩ := ih
    have hmoved : indent (property.reference ns array) =
        (property.inside (isArrayKey key)).reference ns array := by
      simp only [PropertyAt.reference, PropertyAt.inside, Function.iterate_succ_apply']
    refine ⟨front ++ .name ⟨fieldName key, 0, false⟩ ::
        .text (": " ++ Outline.opening (isArrayKey key)) ::
          inner.map (Part.inside (isArrayKey key)),
      outer.map (Part.inside (isArrayKey key)) ++
        .text (Outline.closing (isArrayKey key)) :: back, ?_⟩
    rw [he, partsOf_branch_of_none hr, hi]
    simp [Part.inside, hmoved]

end Parts

/-- In the text of an object of fields every reference is written with the name of the shared type in
its namespace, and with nothing added to a name on one line. -/
def RefersByName (known : KnownEnums) (references : References) (ns : String) (fields : Fields) :
    Prop :=
  ∀ property array, RefersAt known references fields property array →
    (∃ front back, bodyParts known references fields =
      front ++ .name property :: .text (property.reference ns array) :: back) ∧
    (OneLine property.name → property.reference ns array =
      ": " ++ Outline.referenceText array (ns ++ "." ++ sharedTypeName property.name))

/-- The references of an endpoint are written by name, in the text of any object in any pass. -/
theorem refersByName_registryAfter {endpoint : String}
    (hn : isIdentifier endpoint.toList = true) (known : KnownEnums) (operations : Operations)
    (j : Nat) (fields : Fields) :
    RefersByName known (registryAfter known endpoint operations j).references
      (sharedNamespace endpoint) fields := by
  have hns : OneLine (sharedNamespace endpoint) := oneLine_of_isIdentifierPart
    (isIdentifierPart_of_isIdentifier (isIdentifier_sharedNamespace hn))
  have hdot : (".I" : String) = "." ++ "I" := rfl
  refine fun property array h => ⟨exists_reference_parts (fun name text reference hr => ?_) h,
    property.reference_of_oneLine hns array⟩
  rw [(Operations.eq_of_references hr).2, hdot, sharedTypeName]
  simp only [String.append_assoc]

end FieldTree

namespace Catalog

open FieldTree

/-- The block of the shared types of an endpoint, if there are any. -/
def sharedBlock (ns : String) (shared : Entries String) : List String :=
  if shared.isEmpty then []
  else [bracedBlock ("export namespace " ++ ns)
    (shared.map fun entry => indent (declaration (sharedTypeName entry.1) entry.2))]

/-- The namespaces of an endpoint that starts with none give the block of its shared types. -/
theorem filterMap_addShared {registry : Registry} (hr : registry.registered.Distinct) :
    (addShared registry []).filterMap namespaceBlock? =
      sharedBlock registry.ns registry.registered := by
  unfold addShared sharedBlock
  split
  · rfl
  · rename_i he
    have hkeys : Entries.Distinct
        (registry.registered.map fun entry => (entry.1, sharedDeclaration entry.1 entry.2)) := by
      unfold Entries.Distinct Entries.keys at hr ⊢
      rwa [List.map_map]
    have hput : putShared registry [] = [(registry.ns,
        registry.registered.map fun entry => (entry.1, sharedDeclaration entry.1 entry.2))] := by
      rw [putShared, Entries.value?_nil, Option.getD_none, Entries.putAll_nil_left hkeys]
      rfl
    rw [hput]
    simp [namespaceBlock?, he, Entries.values, sharedDeclaration_eq, Function.comp_def]

/-- **How shared types are named.** A description can be built, and for each endpoint of it whose
name is an identifier:

* the output has the block of the shared types, in a namespace that is an identifier. They have
  different names, and each of these is an identifier if and only if the field name that it is
  shared under could stand inside one;
* the body of a shared type was taken from a branch, and every reference in it is written with the
  name of a shared type;
* so is every reference in the type of an input or output. -/
theorem shared_type_names (options : Options) {description : Description}
    (hd : description.Keyed) {service endpoint : String} {endpoints : Entries Operations}
    {operations : Operations} (hs : (service, endpoints) ∈ description)
    (he : (endpoint, operations) ∈ endpoints) (hn : isIdentifier endpoint.toList = true) :
    ∃ catalog, (build options description empty).outcome = .ok catalog ∧
      let settled := settleEndpoint options endpoint operations
      let shared := settled.registry.registered
      let ns := sharedNamespace endpoint
      let output := catalog.endpointOutput service endpoint (endpointFile service endpoint)
      (output ∈ catalog.outputs ∧ (∃ front, output.blocks = front ++ sharedBlock ns shared) ∧
        isIdentifier ns.toList = true ∧ (shared.map fun entry => sharedTypeName entry.1).Nodup ∧
        ∀ entry ∈ shared, isIdentifier (sharedTypeName entry.1).toList = true ↔
          ∀ c ∈ entry.1.toList, isIdentifierPart c = true) ∧
      (∀ entry ∈ shared, ∃ j branch,
        TakenFrom options.known endpoint operations settled.passes.toNat entry.1 j branch ∧
        let references := (registryAfter options.known endpoint operations j).references
        entry.2 = writeAll .asNeeded (bodyParts options.known references branch.fields) ∧
          RefersByName options.known references ns branch.fields) ∧
      ∀ entry ∈ operations, ∀ direction ∈ [(Signature.inputType entry.1, entry.2.input),
          (Signature.outputType entry.1, entry.2.output)],
        let references := settled.registry.references
        catalog.typeBody? service endpoint direction.1 =
            some (writeAll options.quoting (bodyParts options.known references direction.2)) ∧
          RefersByName options.known references ns direction.2 := by
  obtain ⟨catalog, hb, hfrom⟩ := exists_builtFrom options hd
  have hfilled := hfrom.filled _ _ _ (hd.at?_of_mem hs he)
  have hem := emitted_of_build hd hs he hb
  obtain ⟨hidle, hns⟩ := settleEndpoint_spec options endpoint operations
  have hlast := registry_settleEndpoint options endpoint operations
  refine ⟨catalog, hb, ⟨endpointOutput_mem_outputs hfilled.files, ?_,
    isIdentifier_sharedNamespace hn, ?_, fun entry _ => isIdentifier_sharedTypeName_iff⟩,
    fun entry hm => ?_, fun entry hm direction hdir => ⟨?_, ?_⟩⟩
  · rw [← hns, ← filterMap_addShared hidle.distinct]
    rw [endpointOutput, hfilled.namespaces]
    exact ⟨_, rfl⟩
  · have hkeys := hidle.distinct
    unfold Entries.Distinct Entries.keys at hkeys
    simpa [Function.comp_def] using List.Nodup.map sharedTypeName_injective hkeys
  · have hv := Entries.value?_of_mem hidle.distinct hm
    rw [hlast] at hv
    obtain ⟨j, branch, ht, hbody⟩ := exists_takenFrom hv
    refine ⟨j, branch, ht, ?_, refersByName_registryAfter hn _ _ j _⟩
    rw [← hbody]
    exact render_eq_writeAll branch.fields .asNeeded
  · rw [← render_eq_writeAll]
    exact hem.typeBody_of_direction hm hdir
  · show RefersByName _ (settleEndpoint options endpoint operations).registry.references _ _
    rw [hlast]
    exact refersByName_registryAfter hn _ _ _ _

/-- The output of the operation of the address book. -/
def foundPerson : Fields :=
  [("person", .branch [("address", .branch [("street", .leaf "street|xs:string")])]),
    ("address[]", .branch [("street", .leaf "street|xs:string")])]

/-- The address book declares and uses the identifier `Iaddress`. -/
theorem shared_type_names_addressBook :
    let references := (settleEndpoint {} "Book" .addressBook).registry.references
    ∃ catalog, (build {} [("Directory", [("Book", .addressBook)])] empty).outcome = .ok catalog ∧
      (∃ front, (catalog.endpointOutput "Directory" "Book" "Directory/Book").blocks =
        front ++ [joinWith "\n" ["export namespace BookTypes \x7b", "    export type Iaddress = \x7b",
          "        street: string;", "    \x7d", "    export type Iperson = \x7b",
          "        address: BookTypes.Iaddress;", "    \x7d", "\x7d"]]) ∧
      isIdentifier (sharedTypeName "address").toList = true ∧
      RefersAt [] references foundPerson ⟨"address", 0, false⟩ true ∧
      ∃ front back, bodyParts [] references foundPerson =
        front ++ .name ⟨"address", 0, false⟩ :: .text ": BookTypes.Iaddress[];" :: back := by
  intro references
  have hd : Description.Keyed [("Directory", [("Book", .addressBook)])] := by decide
  obtain ⟨catalog, hb, ⟨-, ⟨front, hblocks⟩, -, -, hlegal⟩, -, htypes⟩ :=
    shared_type_names {} hd List.mem_cons_self List.mem_cons_self (by decide)
  obtain ⟨-, hrefers⟩ := htypes _ List.mem_cons_self _
    (List.mem_cons_of_mem _ List.mem_cons_self)
  have hlast : LastField foundPerson "address[]"
      (.branch [("street", .leaf "street|xs:string")]) := .tail (.head (by decide) (by simp))
  have hreference : references "address" (Shape.render .asNeeded (Shape.ofFields [] references
      [("street", .leaf "street|xs:string")])) = some "BookTypes.Iaddress" := by decide +kernel
  have hat : RefersAt [] references foundPerson ⟨"address", 0, false⟩ true :=
    .field hlast hreference
  obtain ⟨⟨inner, outer, hparts⟩, htext⟩ := hrefers _ _ hat
  rw [htext (by decide)] at hparts
  exact ⟨catalog, hb, ⟨front, hblocks.trans (congrArg (front ++ ·) (by decide +kernel))⟩,
    by decide, hat, inner, outer, hparts⟩

/-- A person with a name under a field name that is no identifier. -/
def fullNames : Operations :=
  [("Find", ⟨[], [("full name", .branch [("first", .leaf "first|xs:string")])]⟩)]

/-- **A declaration and a reference that are no identifiers**: the property name is quoted, and the
name of the type that is shared under it is written with its blank. -/
theorem full_name_shared :
    Description.Keyed [("Directory", [("Book", fullNames)])] ∧
    isIdentifier "Book".toList = true ∧
    isIdentifier (sharedTypeName "full name").toList = false ∧
    ∃ catalog, (build {} [("Directory", [("Book", fullNames)])] empty).outcome = .ok catalog ∧
      (catalog.endpointOutput "Directory" "Book" "Directory/Book").blocks.getLast? =
        some (joinWith "\n" ["export namespace BookTypes \x7b", "    export type Ifull name = \x7b",
          "        first: string;", "    \x7d", "\x7d"]) ∧
      catalog.typeBody? "Directory" "Book" "IFindOutput" =
        some "\x7b\n    \"full name\": BookTypes.Ifull name;\n\x7d" := by
  have h : (build {} [("Directory", [("Book", fullNames)])] empty).outcome.toOption.map
      (fun catalog => decide
        ((catalog.endpointOutput "Directory" "Book" "Directory/Book").blocks.getLast? =
          some (joinWith "\n" ["export namespace BookTypes \x7b",
            "    export type Ifull name = \x7b", "        first: string;", "    \x7d", "\x7d"]) ∧
        catalog.typeBody? "Directory" "Book" "IFindOutput" =
          some "\x7b\n    \"full name\": BookTypes.Ifull name;\n\x7d")) = some true := by
    decide +kernel
  obtain ⟨catalog, hb, -⟩ := inStep_empty.build {} [("Directory", [("Book", fullNames)])]
  rw [hb] at h
  exact ⟨by decide, by decide, by decide, catalog, hb, of_decide_eq_true (Option.some.inj h)⟩

end Catalog

end SoapTypes
