import SoapTypes.Catalog.Unchecked
import SoapTypes.Proofs.CatalogBuild
import SoapTypes.Proofs.Tables

/-!
# Building what was checked, and what was not

A description that passes its check is decoded before it is built. It can also be built as it
stands, and then its values are read when their turn comes. The two ways agree: the trees that are
decoded and those that are read differ at most in metadata, which describe an object and are no
fields of it.

* `FieldTree.MembersAlike` relates objects of fields that are built alike, with any references.
* `Catalog.buildUnchecked_of_decode`: a description that passes the check is built alike in both
  ways.
-/

namespace SoapTypes

open Entries

namespace FieldTree

/-! ### Trees that are built alike -/

/-- Two trees make the same member. -/
def Alike (a b : FieldTree) : Prop :=
  ∀ known references targetNamespace array name,
    Shape.buildTree known references targetNamespace array name a =
      Shape.buildTree known references targetNamespace array name b

/-- Two objects have the same namespace for their types and make the same members. -/
structure MembersAlike (a b : Fields) : Prop where
  targetNamespace : targetNamespace? a = targetNamespace? b
  built (known : KnownEnums) (references : References) (uri : Option String) :
    Shape.buildTrees known references uri a = Shape.buildTrees known references uri b

namespace MembersAlike

variable {a b : Fields}

theorem refl (a : Fields) : MembersAlike a a := ⟨rfl, fun _ _ _ => rfl⟩

theorem build (h : MembersAlike a b) (known : KnownEnums) (references : References) :
    Shape.build known references a = Shape.build known references b := by
  rw [Shape.build, Shape.build, h.targetNamespace, h.built]

theorem ofFields (h : MembersAlike a b) (known : KnownEnums) (references : References) :
    Shape.ofFields known references a = Shape.ofFields known references b :=
  congrArg Shape.Built.result (h.build known references)

theorem branchTexts (h : MembersAlike a b) (known : KnownEnums) (references : References) :
    Shape.branchTexts known references a = Shape.branchTexts known references b :=
  congrArg Shape.Built.branches (h.build known references)

theorem branch (h : MembersAlike a b) : Alike (.branch a) (.branch b) := by
  intro known references uri array name
  rw [Shape.buildTree_branch, Shape.buildTree_branch, h.ofFields, h.branchTexts]

end MembersAlike

theorem targetNamespace?_cons (key : String) (tree : FieldTree) (members : Fields) :
    targetNamespace? ((key, tree) :: members) =
      if key = targetNamespaceKey then
        if tree.toJson.isBlank then none else some tree.toJson.asText
      else targetNamespace? members := by
  unfold targetNamespace?
  by_cases hk : key = targetNamespaceKey <;> simp [value?, hk]

/-- Metadata may be replaced by a leaf that shows the same. -/
theorem MembersAlike.cons_metadata {a b : Fields} (h : MembersAlike a b) {key : String}
    (hk : isMetadata key = true) {tree other : FieldTree}
    (hblank : tree.toJson.isBlank = other.toJson.isBlank)
    (htext : tree.toJson.isBlank = false → tree.toJson.asText = other.toJson.asText) :
    MembersAlike ((key, tree) :: a) ((key, other) :: b) where
  targetNamespace := by
    rw [targetNamespace?_cons, targetNamespace?_cons, h.targetNamespace, ← hblank]
    cases hb : tree.toJson.isBlank with
    | true => rfl
    | false => rw [htext hb]
  built known references uri := by
    rw [Shape.buildTrees_cons_metadata _ _ _ hk, Shape.buildTrees_cons_metadata _ _ _ hk, h.built]

theorem MembersAlike.cons_field {a b : Fields} (h : MembersAlike a b) {key : String}
    (hk : isMetadata key = false) {tree other : FieldTree} (ht : Alike tree other) :
    MembersAlike ((key, tree) :: a) ((key, other) :: b) where
  targetNamespace := by
    have hne : key ≠ targetNamespaceKey := by
      rintro rfl
      exact absurd hk (by decide)
    rw [targetNamespace?_cons, targetNamespace?_cons, if_neg hne, if_neg hne, h.targetNamespace]
  built known references uri := by
    rw [Shape.buildTrees_cons_field _ _ _ hk, Shape.buildTrees_cons_field _ _ _ hk, h.built,
      ht known references uri]

/-! ### Trees that were decoded -/

theorem decode_object_eq_ok {path : String} {members : List (String × Json)} {tree : FieldTree}
    (h : decode path (.object members) = .ok tree) :
    ∃ trees, decodeMembers path members = .ok trees ∧ tree = .branch trees := by
  rw [decode] at h
  cases hm : decodeMembers path members with
  | error misplaced =>
    rw [hm] at h
    cases h
  | ok trees =>
    rw [hm] at h
    cases h
    exact ⟨trees, rfl, rfl⟩

theorem decodeMembers_cons_eq_ok {path key : String} {value : Json}
    {members : List (String × Json)} {trees : Fields}
    (h : decodeMembers path ((key, value) :: members) = .ok trees) :
    ∃ tree others, decode (memberPath path key) value = .ok tree ∧
      decodeMembers path members = .ok others ∧ trees = (key, tree) :: others := by
  rw [decodeMembers] at h
  cases hd : decode (memberPath path key) value with
  | error misplaced =>
    rw [hd] at h
    cases h
  | ok tree =>
    rw [hd] at h
    cases hm : decodeMembers path members with
    | error misplaced =>
      rw [hm] at h
      cases h
    | ok others =>
      rw [hm] at h
      cases h
      exact ⟨tree, others, rfl, rfl, rfl⟩

mutual

/-- A tree that was decoded is written as the value that it came from. -/
theorem toJson_of_decode {path : String} :
    ∀ {value : Json} {tree : FieldTree}, decode path value = .ok tree → tree.toJson = value
  | .text label, tree, h => by
    cases h
    rfl
  | .object members, tree, h => by
    obtain ⟨trees, hm, rfl⟩ := decode_object_eq_ok h
    rw [toJson, membersToJson_of_decode hm]

theorem membersToJson_of_decode {path : String} :
    ∀ {members : List (String × Json)} {trees : Fields},
      decodeMembers path members = .ok trees → membersToJson trees = members
  | [], trees, h => by
    cases h
    rfl
  | (key, value) :: members, trees, h => by
    obtain ⟨tree, others, hd, hm, rfl⟩ := decodeMembers_cons_eq_ok h
    rw [membersToJson, toJson_of_decode hd, membersToJson_of_decode hm]

end

/-- A tree that is not blank has a text to show. -/
theorem asText_toJson_ne_empty {tree : FieldTree} (h : tree.toJson.isBlank = false) :
    tree.toJson.asText.isEmpty = false := by
  cases tree with
  | leaf label => exact h
  | branch members =>
    simp [toJson, Json.asText, Json.display, String.append_eq_empty_iff]

/-- What a tree shows as metadata is what it is. -/
theorem MembersAlike.cons_metadataLeaf {a b : Fields} (h : MembersAlike a b) {key : String}
    (hk : isMetadata key = true) (tree : FieldTree) :
    MembersAlike ((key, tree) :: a) ((key, metadataLeaf tree.toJson) :: b) := by
  cases hb : tree.toJson.isBlank with
  | true =>
    have hleaf : metadataLeaf tree.toJson = leaf "" := by rw [metadataLeaf, if_pos hb]
    rw [hleaf]
    exact h.cons_metadata hk hb fun hc => absurd (hb.symm.trans hc) (by decide)
  | false =>
    have hleaf : metadataLeaf tree.toJson = leaf tree.toJson.asText := by
      rw [metadataLeaf, if_neg (by simp [hb])]
    rw [hleaf]
    exact h.cons_metadata hk (hb.trans (asText_toJson_ne_empty hb).symm) fun _ => rfl

mutual

/-- A value that can be decoded can be read, and the two trees are built alike. -/
theorem exists_ofJson? {path : String} :
    ∀ {value : Json} {tree : FieldTree}, decode path value = .ok tree →
      ∃ read, ofJson? value = some read ∧ Alike tree read
  | .text label, tree, h => by
    cases h
    exact ⟨leaf label, rfl, fun _ _ _ _ _ => rfl⟩
  | .object members, tree, h => by
    obtain ⟨trees, hm, rfl⟩ := decode_object_eq_ok h
    obtain ⟨read, hr, ha⟩ := exists_membersOfJson? hm
    exact ⟨.branch read, by rw [ofJson?, hr, Option.map_some], ha.branch⟩

theorem exists_membersOfJson? {path : String} :
    ∀ {members : List (String × Json)} {trees : Fields}, decodeMembers path members = .ok trees →
      ∃ read, membersOfJson? members = some read ∧ MembersAlike trees read
  | [], trees, h => by
    cases h
    exact ⟨[], rfl, .refl []⟩
  | (key, value) :: members, trees, h => by
    obtain ⟨tree, others, hd, hm, rfl⟩ := decodeMembers_cons_eq_ok h
    obtain ⟨reads, hrs, has⟩ := exists_membersOfJson? hm
    cases hk : isMetadata key with
    | true =>
      have hj := toJson_of_decode hd
      refine ⟨(key, metadataLeaf value) :: reads, ?_, hj ▸ has.cons_metadataLeaf hk tree⟩
      rw [membersOfJson?, if_pos hk, hrs, Option.map_some]
    | false =>
      obtain ⟨read, hr, ha⟩ := exists_ofJson? hd
      refine ⟨(key, read) :: reads, ?_, has.cons_field hk ha⟩
      rw [membersOfJson?, if_neg (by simp [hk]), hr, hrs]

end

end FieldTree

/-! ### Operations -/

/-- Two operations with objects of fields that are built alike. -/
structure Operation.Alike (a b : Operation) : Prop where
  input : FieldTree.MembersAlike a.input b.input
  output : FieldTree.MembersAlike a.output b.output

theorem expectObject_eq_ok {path : String} {value : Json} {members : List (String × Json)} :
    expectObject path value = .ok members ↔ value = .object members := by
  cases value <;> simp [expectObject]

namespace Operation

theorem exists_direction? {path direction : String} {members : List (String × Json)}
    {fields : Fields} (h : decodeDirection path members direction = .ok fields) :
    ∃ read, direction? members direction = some read ∧ FieldTree.MembersAlike fields read := by
  unfold decodeDirection at h
  unfold direction?
  cases hv : Entries.value? members direction with
  | none =>
    rw [hv] at h
    cases h
    exact ⟨[], rfl, .refl []⟩
  | some value =>
    rw [hv] at h
    cases value with
    | null =>
      cases h
      exact ⟨[], rfl, .refl []⟩
    | object trees =>
      obtain ⟨read, hr, ha⟩ := FieldTree.exists_membersOfJson? h
      refine ⟨read, ?_, ha⟩
      cases trees with
      | nil => exact hr
      | cons member trees => exact hr
    | _ => cases h

theorem exists_ofJson? {path : String} {value : Json} {operation : Operation}
    (h : decode path value = .ok operation) :
    ∃ read, ofJson? value = some read ∧ Alike operation read := by
  obtain ⟨members, hm, h⟩ := exists_of_bind_eq_ok h
  obtain ⟨input, hi, h⟩ := exists_of_bind_eq_ok h
  obtain ⟨output, ho, h⟩ := exists_of_bind_eq_ok h
  cases h
  cases expectObject_eq_ok.1 hm
  obtain ⟨readInput, hri, hai⟩ := exists_direction? hi
  obtain ⟨readOutput, hro, hao⟩ := exists_direction? ho
  refine ⟨⟨readInput, readOutput⟩, ?_, hai, hao⟩
  simp [ofJson?, Json.members?, hri, hro]

end Operation

/-- What can be decoded member by member can be read member by member, with related results. -/
theorem exists_readEach {α β : Type} {R : α → β → Prop} {path : String → String}
    {decode : String → Json → Except Misplaced α} {read : Json → Option β}
    (h : ∀ path value result, decode path value = .ok result →
      ∃ other, read value = some other ∧ R result other) :
    ∀ {members : List (String × Json)} {results : Entries α},
      decodeEach path decode members = .ok results →
        ∃ others, readEach read members = some others ∧ Related (fun _ => R) results others
  | [], results, hd => by
    cases hd
    exact ⟨[], rfl, .nil⟩
  | (key, value) :: members, results, hd => by
    obtain ⟨first, hf, hd⟩ := exists_of_bind_eq_ok hd
    obtain ⟨rest, hr, hd⟩ := exists_of_bind_eq_ok hd
    cases hd
    obtain ⟨other, ho, hR⟩ := h (path key) value first hf
    obtain ⟨others, hos, hRs⟩ := exists_readEach h hr
    refine ⟨(key, other) :: others, ?_, .cons ⟨rfl, hR⟩ hRs⟩
    simp [readEach, ho, hos]

namespace Operations

/-- The same operations in the same order, with objects of fields that are built alike. -/
abbrev Alike (a b : Operations) : Prop := Related (fun _ => Operation.Alike) a b

theorem exists_ofJson? {path : String} {value : Json} {operations : Operations}
    (h : decode path value = .ok operations) :
    ∃ read, ofJson? value = some read ∧ Alike operations read := by
  obtain ⟨members, hm, hd⟩ := exists_of_bind_eq_ok h
  cases expectObject_eq_ok.1 hm
  exact exists_readEach (fun _ _ _ ho => Operation.exists_ofJson? ho) hd

end Operations

/-! ### Builds -/

section Passes

variable {operations operations' : Operations}

theorem Registry.meet_alike {a b : Fields} (h : FieldTree.MembersAlike a b) (known : KnownEnums)
    (registry : Registry) : registry.meet known a = registry.meet known b := by
  rw [meet, meet, h.branchTexts]

theorem Registry.meetAll_alike (h : Operations.Alike operations operations') (known : KnownEnums)
    (registry : Registry) :
    registry.meetAll known operations = registry.meetAll known operations' := by
  induction h generalizing registry with
  | nil => rfl
  | @cons entry entry' operations operations' he _ ih =>
    have hstep : registry.meetOperation known entry.2 = registry.meetOperation known entry'.2 := by
      rw [meetOperation, meetOperation, meet_alike he.2.input, meet_alike he.2.output]
    rw [meetAll, meetAll, List.foldl_cons, List.foldl_cons, hstep]
    exact ih _

theorem settle_alike_operations (h : Operations.Alike operations operations') (known : KnownEnums)
    (limit : Int) (endpoint : String) (registry : Registry) :
    settle known limit endpoint operations registry =
      settle known limit endpoint operations' registry := by
  have hpass : Registry.pass known operations = Registry.pass known operations' :=
    funext fun registry => by rw [Registry.pass, Registry.pass, Registry.meetAll_alike h]
  rw [settle, settle, hpass]

end Passes

namespace Catalog

theorem flatMap_alike {operations operations' : Operations}
    (h : Operations.Alike operations operations') (options : Options) (registry : Registry) :
    operations.flatMap (operationTypes options registry) =
        operations'.flatMap (operationTypes options registry) ∧
      operations.flatMap operationMethods = operations'.flatMap operationMethods := by
  induction h with
  | nil => exact ⟨rfl, rfl⟩
  | @cons entry entry' operations operations' he _ ih =>
    obtain ⟨hk, hio⟩ := he
    have hrender : ∀ {a b : Fields}, FieldTree.MembersAlike a b →
        registry.render options a = registry.render options b := by
      intro a b hab
      rw [Registry.render, Registry.render, Registry.shape, Registry.shape, hab.ofFields]
    have htypes : operationTypes options registry entry =
        operationTypes options registry entry' := by
      rw [operationTypes, operationTypes, hk, hrender hio.input, hrender hio.output]
    have hmethods : operationMethods entry = operationMethods entry' := by
      rw [operationMethods, operationMethods, hk]
    rw [List.flatMap_cons, List.flatMap_cons, List.flatMap_cons, List.flatMap_cons, htypes,
      hmethods, ih.1, ih.2]
    exact ⟨rfl, rfl⟩

/-- Operations that are alike are built alike. -/
theorem buildEndpoint_alike {operations operations' : Operations}
    (h : Operations.Alike operations operations') (options : Options) (service endpoint : String)
    (catalog : Catalog) :
    buildEndpoint options service endpoint operations catalog =
      buildEndpoint options service endpoint operations' catalog := by
  have hsettle : settleEndpoint options endpoint operations =
      settleEndpoint options endpoint operations' := settle_alike_operations h _ _ _ _
  have hput : ∀ (registry : Registry) (catalog : Catalog),
      catalog.putEndpoint options service endpoint operations registry =
        catalog.putEndpoint options service endpoint operations' registry := by
    intro registry catalog
    obtain ⟨htypes, hmethods⟩ := flatMap_alike h options registry
    rw [putEndpoint_eq, putEndpoint_eq, htypes, hmethods]
  unfold buildEndpoint
  simp only [hsettle, hput]

theorem buildUncheckedEndpoints_of_decode (options : Options) (service : String)
    {path : String → String} :
    ∀ {members : List (String × Json)} {endpoints : Entries Operations},
      decodeEach path Operations.decode members = .ok endpoints →
        ∀ catalog, buildUncheckedEndpoints options service members catalog =
          buildEndpoints options service endpoints catalog
  | [], endpoints, h => by
    cases h
    exact fun _ => rfl
  | (endpoint, value) :: members, endpoints, h => by
    obtain ⟨operations, ho, h⟩ := exists_of_bind_eq_ok h
    obtain ⟨others, hr, hok⟩ := exists_of_bind_eq_ok h
    cases hok
    obtain ⟨read, hread, ha⟩ := Operations.exists_ofJson? ho
    intro catalog
    have hothers := buildUncheckedEndpoints_of_decode options service hr
    rw [buildUncheckedEndpoints, buildEndpoints, buildUncheckedEndpoint_of_ofJson? hread,
      buildEndpoint_alike ha]
    simp only [hothers]

theorem buildUncheckedServices_of_decode (options : Options) :
    ∀ {document : List (String × Json)} {description : Description},
      Description.decode document = .ok description →
        ∀ catalog, buildUncheckedServices options document catalog =
          build options description catalog
  | [], description, h => by
    cases h
    exact fun _ => rfl
  | (service, value) :: document, description, h => by
    obtain ⟨endpoints, hs, h⟩ := exists_of_bind_eq_ok h
    obtain ⟨others, hr, hok⟩ := exists_of_bind_eq_ok h
    cases hok
    obtain ⟨members, hm, he⟩ := exists_of_bind_eq_ok hs
    cases expectObject_eq_ok.1 hm
    intro catalog
    have hothers := buildUncheckedServices_of_decode options hr
    rw [buildUncheckedServices, build, buildUncheckedEndpoints_of_decode options service he]
    simp only [hothers]

/-- **A description that passes its check is built as it stands** like the one that is decoded. -/
theorem buildUnchecked_of_decode {document : List (String × Json)} {description : Description}
    (h : Description.decode document = .ok description) (options : Options) (catalog : Catalog) :
    buildUnchecked options (.object document) catalog = build options description catalog :=
  buildUncheckedServices_of_decode options h catalog

end Catalog

end SoapTypes
