import Mathlib.Data.List.Nodup
import SoapTypes.Proofs.EndpointTables
import SoapTypes.Proofs.Unions

/-!
# The order of operations

A pass meets the branches of the operations in order, and the first text of a name is treated
differently from those that come later. What the pass makes of them depends only on which texts
there are, so two endpoints with the same operations in another order go through the same passes.

* `Registry.Alike` relates the registries of two such runs, pass by pass.
* `settle_alike`: the passes are as many, with the same notice, and end in registries that share the
  same.
* `Catalog.build_perm`: what a build writes for such endpoints is equal as maps.
-/

namespace SoapTypes

namespace Operations

variable {operations operations' : Operations}

theorem mem_branches_of_perm (h : operations.Perm operations') {branch : Branch} :
    branch ∈ operations.branches ↔ branch ∈ operations'.branches :=
  (h.flatMap_right _).mem_iff

/-- The same operations in another order have the same texts. -/
theorem mem_texts_of_perm (h : operations.Perm operations') {known : KnownEnums}
    {references : References} {name text : String} :
    text ∈ operations.texts known references name ↔
      text ∈ operations'.texts known references name := by
  simp only [mem_texts, mem_branches_of_perm h]

end Operations

namespace Registry

/-! ### One pass -/

/-- The text of a name after a pass does not depend on the order of the texts that were met, nor on
how often each was. -/
theorem settledText_congr {texts texts' : List String} (h : ∀ text, text ∈ texts ↔ text ∈ texts')
    (shared : Option String) : settledText shared texts = settledText shared texts' := by
  have hu : ∀ text, text ∈ unshared shared texts ↔ text ∈ unshared shared texts' := by
    intro text
    rw [mem_unshared, mem_unshared, h]
  by_cases hs : unshared shared texts = []
  · -- then no other text is unshared either
    have hs' : unshared shared texts' = [] := by
      rw [List.eq_nil_iff_forall_not_mem]
      intro text hm
      simpa [hs] using (hu text).2 hm
    rw [settledText, settledText, hs, hs']
  · obtain ⟨first, hm⟩ := List.exists_mem_of_ne_nil _ hs
    have hs' := List.ne_nil_of_mem ((hu first).1 hm)
    rw [settledText_of_unshared hs, settledText_of_unshared hs']
    ext text
    simp only [settledText_none_eq_some, hu]

/-- Two registries of an endpoint that share the same, between two passes. -/
structure Alike (a b : Registry) : Prop where
  left : a.Idle
  right : b.Idle
  ns : a.ns = b.ns
  shared : Entries.SameMap a.registered b.registered

variable {a b c d : Registry}

theorem Idle.alike (h : a.Idle) : Alike a a := ⟨h, h, rfl, fun _ => rfl⟩

theorem Alike.references (h : Alike a b) : a.references = b.references :=
  references_congr h.ns h.shared

/-- A pass over the same operations in another order leaves registries alike. -/
theorem Alike.pass (h : Alike a b) {operations operations' : Operations}
    (hp : operations.Perm operations') (known : KnownEnums) :
    Alike (a.pass known operations) (b.pass known operations') where
  left := h.left.pass known operations
  right := h.right.pass known operations'
  ns := by rw [ns_pass, ns_pass, h.ns]
  shared := by
    intro name
    rw [value?_pass known operations h.left, value?_pass known operations' h.right, h.shared name,
      h.references]
    exact settledText_congr (fun _ => Operations.mem_texts_of_perm hp) _

/-- Registries alike change in the same passes. -/
theorem Alike.sameShared (h : Alike a b) (h' : Alike c d) :
    Registry.sameShared a c = Registry.sameShared b d := by
  rw [Bool.eq_iff_iff, sameShared_iff h.left h'.left, sameShared_iff h.right h'.right]
  constructor
  · intro hs name
    rw [← h.shared name, hs name, h'.shared name]
  · intro hs name
    rw [h.shared name, hs name, h'.shared name]

/-! ### All passes -/

/-- Steps that keep registries alike are repeated equally often, and end in registries alike. -/
theorem Alike.iterate {step step' : Registry → Registry}
    (hstep : ∀ a b, Alike a b → Alike (step a) (step' b)) (h : Alike a b) (fuel : Nat) :
    (a.iterate step fuel).1 = (b.iterate step' fuel).1 ∧
      Alike (a.iterate step fuel).2 (b.iterate step' fuel).2 := by
  induction fuel generalizing a b with
  | zero => exact ⟨rfl, h⟩
  | succ fuel ih =>
    have hnext := hstep a b h
    have hsame := h.sameShared hnext
    simp only [Registry.iterate, ← hsame]
    split
    · exact ⟨rfl, hnext⟩
    · obtain ⟨hsteps, hlast⟩ := ih hnext
      exact ⟨by rw [hsteps], hlast⟩

theorem Alike.isEmpty (h : Alike a b) : a.registered.isEmpty = b.registered.isEmpty := by
  have hnil : ∀ registered : Entries String,
      registered.isEmpty = true ↔ ∀ name, registered.value? name = none := by
    intro registered
    simp only [Entries.value?_eq_none_iff, List.isEmpty_iff]
    constructor
    · rintro rfl name
      simp
    · intro hk
      exact List.map_eq_nil_iff.1 (List.eq_nil_iff_forall_not_mem.2 hk)
  rw [Bool.eq_iff_iff, hnil, hnil]
  simp only [h.shared _]

theorem Alike.render (h : Alike a b) (options : Options) (fields : Fields) :
    a.render options fields = b.render options fields := by
  rw [Registry.render, Registry.render, shape, shape, h.references]

end Registry

/-- **The passes do not depend on the order of the operations**: they are as many, with the same
notice, and what is shared at the end is equal as a map. -/
theorem settle_alike {operations operations' : Operations} (hp : operations.Perm operations')
    (known : KnownEnums) (limit : Int) (endpoint : String) {a b : Registry}
    (h : Registry.Alike a b) :
    (settle known limit endpoint operations a).passes =
        (settle known limit endpoint operations' b).passes ∧
      (settle known limit endpoint operations a).notice =
        (settle known limit endpoint operations' b).notice ∧
      Registry.Alike (settle known limit endpoint operations a).registry
        (settle known limit endpoint operations' b).registry := by
  obtain ⟨hsteps, hlast⟩ := h.iterate
    (fun _ _ hab => hab.pass hp known) limit.toNat
  unfold settle
  cases ha : a.iterate (Registry.pass known operations) limit.toNat with
  | mk steps last =>
    cases hb : b.iterate (Registry.pass known operations') limit.toNat with
    | mk steps' last' =>
      rw [ha, hb] at hsteps hlast
      obtain rfl : steps = steps' := hsteps
      cases steps with
      | none => exact ⟨rfl, rfl, hlast⟩
      | some steps => exact ⟨rfl, rfl, hlast⟩

namespace Catalog

open Entries

section Endpoint

variable {options : Options} {service endpoint : String} {operations operations' : Operations}
  {a b : Registry}

/-- The types of distinct operations have distinct names. -/
theorem distinct_operationTypes (ho : operations.Distinct) (registry : Registry) :
    Entries.Distinct (operations.flatMap (operationTypes options registry)) := by
  have hkeys : Entries.keys (operations.flatMap (operationTypes options registry)) =
      operations.keys.flatMap fun name =>
        [Signature.inputType name, Signature.outputType name] := by
    rw [Entries.keys, List.map_flatMap, Entries.keys, List.flatMap_map]
    rfl
  rw [Entries.Distinct, hkeys, List.nodup_flatMap]
  constructor
  · intro name _
    simp [Signature.inputType_ne_outputType]
  · refine List.Pairwise.imp (fun {name other} hne => ?_) ho
    intro type ht ht'
    simp only [List.mem_cons, List.not_mem_nil, or_false] at ht ht'
    rcases ht with rfl | rfl <;> rcases ht' with he | he
    · exact hne (Signature.inputType_injective he)
    · exact Signature.inputType_ne_outputType _ _ he
    · exact Signature.inputType_ne_outputType _ _ he.symm
    · exact hne (Signature.outputType_injective he)

theorem sameMap_putAll_operationTypes (hp : operations.Perm operations') (ho : operations.Distinct)
    (h : Registry.Alike a b) (held : Entries String) :
    SameMap (held.putAll (operations.flatMap (operationTypes options a)))
      (held.putAll (operations'.flatMap (operationTypes options b))) := by
  have htypes : operationTypes options a = operationTypes options b := by
    funext entry
    rw [operationTypes, operationTypes, h.render, h.render]
  rw [htypes]
  exact value?_putAll_perm (distinct_operationTypes ho b) (hp.flatMap_right _) held

/-- Registries alike add the same to the namespaces of an endpoint. -/
theorem sameTables_addShared (h : Registry.Alike a b) (namespaces : Namespaces) :
    SameTables (addShared a namespaces) (addShared b namespaces) := by
  unfold addShared
  rw [h.isEmpty]
  split
  · exact .refl _
  · intro ns
    rw [putShared, putShared, h.ns, value?_put, value?_put]
    split
    · -- the declarations are put in the orders in which the names came to be shared
      refine .some fun name => ?_
      rw [value?_putAll_sharedDeclaration h.left.distinct,
        value?_putAll_sharedDeclaration h.right.distinct, h.shared name]
    · exact SameTables.refl namespaces ns

end Endpoint

/-- **The order of operations does not matter to a build.** For an endpoint with distinct operations
and the same operations in another order: the passes are as many, with the same notice, and what is
shared at the end is equal as a map; and whatever the two descriptions are otherwise, and whatever
catalog they are built into, both builds succeed, and the types and namespaces that they leave for
the endpoint are equal as maps. -/
theorem build_perm (options : Options) (endpoint : String) {operations operations' : Operations}
    (hp : operations.Perm operations') (ho : operations.Distinct) :
    (settleEndpoint options endpoint operations).passes =
        (settleEndpoint options endpoint operations').passes ∧
      (settleEndpoint options endpoint operations).notice =
        (settleEndpoint options endpoint operations').notice ∧
      SameMap (settleEndpoint options endpoint operations).registry.registered
        (settleEndpoint options endpoint operations').registry.registered ∧
      ∀ (service : String) (description description' : Description) (start : Catalog),
        description.Keyed → description'.Keyed → start.InStep →
        Table.at? description service endpoint = some operations →
        Table.at? description' service endpoint = some operations' →
        ∃ catalog catalog', (build options description start).outcome = .ok catalog ∧
          (build options description' start).outcome = .ok catalog' ∧
          Option.Rel SameMap (catalog.types.at? service endpoint)
            (catalog'.types.at? service endpoint) ∧
          Option.Rel SameTables (catalog.namespaces.at? service endpoint)
            (catalog'.namespaces.at? service endpoint) := by
  have hfresh : Registry.Idle { ns := sharedNamespace endpoint } :=
    Registry.idle_fresh (sharedNamespace_ne_empty endpoint)
  obtain ⟨hpasses, hnotice, halike⟩ :=
    settle_alike hp options.known options.maxPasses endpoint hfresh.alike
  refine ⟨hpasses, hnotice, halike.shared, ?_⟩
  intro service description description' start hd hd' hs hat hat'
  obtain ⟨catalog, hb, -, hfill, -⟩ := hs.build_tables options hd
  obtain ⟨catalog', hb', -, hfill', -⟩ := hs.build_tables options hd'
  have hf := hfill service endpoint operations hat
  have hf' := hfill' service endpoint operations' hat'
  refine ⟨catalog, catalog', hb, hb', ?_, ?_⟩
  · rw [hf.types, hf'.types]
    exact .some (sameMap_putAll_operationTypes hp ho halike _)
  · rw [hf.namespaces, hf'.namespaces]
    exact .some (sameTables_addShared halike _)

/-- An address book with one more operation, and the same with this operation in front. -/
theorem build_perm_addressBook :
    ∃ catalog catalog',
      (build {} [("Directory", [("Book", Operations.addressBook ++
        [("Move", ⟨[("address", .branch [("street", .leaf "street|xs:string")])], []⟩)])])]
        empty).outcome = .ok catalog ∧
      (build {} [("Directory", [("Book",
        [("Move", ⟨[("address", .branch [("street", .leaf "street|xs:string")])], []⟩)] ++
          Operations.addressBook)])] empty).outcome = .ok catalog' ∧
      Option.Rel SameMap (catalog.types.at? "Directory" "Book")
        (catalog'.types.at? "Directory" "Book") ∧
      Option.Rel SameTables (catalog.namespaces.at? "Directory" "Book")
        (catalog'.namespaces.at? "Directory" "Book") := by
  refine (build_perm {} "Book" List.perm_append_comm ?_).2.2.2 "Directory" _ _ empty ?_ ?_
    inStep_empty rfl rfl
  · simp [Entries.Distinct, Operations.addressBook]
  · constructor <;> simp [Entries.Distinct, Operations.addressBook]
  · constructor <;> simp [Entries.Distinct, Operations.addressBook]

end Catalog

end SoapTypes
