import SoapTypes.Proofs.TablesInStep
import SoapTypes.Proofs.Unfolding

/-!
# Emitted types mean what their trees mean

The types that a build emits for a plain endpoint hold references, to bodies that stem from an
earlier pass and hold references again. Expanding all of them leaves the types as they are without
any sharing, whether the passes came to rest or were cut off at their limit.

* `PlainEndpoint.unfolds`: this for one text and the bodies of one registry.
* `Catalog.build_unfolds`: this for all types and shared shapes of a build.
-/

namespace SoapTypes

open Expansion

namespace PlainEndpoint

variable {endpoint : String} {operations : Operations} (known : KnownEnums)

/-- A plain endpoint refers to names with one inlined text only. -/
theorem sharedOf (h : PlainEndpoint endpoint operations) (k : Nat) :
    Outline.SharedOf (sharedNamespace endpoint) (operations.Uniform known)
      (registryAfter known endpoint operations k).references where
  toSharedIn := sharedIn known k
  shared_of_eq_some := by
    intro name text reference hr
    rw [Registry.references_apply (idle_registryAfter known endpoint operations k).active] at hr
    by_contra hu
    rw [h.value?_eq_none known hu k] at hr
    cases hr

mutual

/-- Bodies of a pass back the outlines of all branches. -/
theorem backed_ofTree (h : PlainEndpoint endpoint operations) {k : Nat} {bodies : Bodies}
    (hb : ∀ branch ∈ operations.branches, operations.Uniform known branch.name →
      bodies branch.name =
        some (branch.text known (registryAfter known endpoint operations k).references))
    (targetNamespace : Option String) (key : String) :
    ∀ {tree : FieldTree}, tree.branches key ⊆ operations.branches →
      (Outline.ofTree known targetNamespace (FieldTree.isArrayKey key) tree).Backed
        (operations.Uniform known) bodies (registryAfter known endpoint operations k).references
        (FieldTree.fieldName key)
  | .leaf _, _ => trivial
  | .branch members, hs => by
    have hm := hs (List.mem_append_right _ (List.mem_singleton.2 rfl) :
      (⟨FieldTree.fieldName key, FieldTree.isArrayKey key, members⟩ : Branch) ∈ _)
    -- the outline keeps only the last field of each name, all of them are backed before
    refine ⟨fun hu => ?_, Outline.backedMembers_iff.2 fun entry he => ?_⟩
    · rw [hb _ hm hu]
      exact congrArg some (Outline.text_ofFields h.plainNamespace (sharedIn known k) known
        (h.branch hm).2)
    · exact Outline.backedMembers_iff.1 (backed_ofTrees h hb _
        (List.Subset.trans (List.subset_append_left _ _) hs)) entry (Entries.mem_ofPairs he)

theorem backed_ofTrees (h : PlainEndpoint endpoint operations) {k : Nat} {bodies : Bodies}
    (hb : ∀ branch ∈ operations.branches, operations.Uniform known branch.name →
      bodies branch.name =
        some (branch.text known (registryAfter known endpoint operations k).references))
    (targetNamespace : Option String) :
    ∀ {members : List (String × FieldTree)},
      FieldTree.allBranches members ⊆ operations.branches →
      Outline.BackedMembers (operations.Uniform known) bodies
        (registryAfter known endpoint operations k).references
        (Outline.ofTrees known targetNamespace members)
  | [], _ => trivial
  | (key, tree) :: members, hs => by
    by_cases hk : FieldTree.isMetadata key = true
    · rw [FieldTree.allBranches_cons_metadata hk] at hs
      rw [Outline.ofTrees, if_pos hk]
      exact backed_ofTrees h hb targetNamespace hs
    · rw [FieldTree.allBranches_cons_field (by simpa using hk)] at hs
      rw [Outline.ofTrees, if_neg hk]
      exact ⟨backed_ofTree h hb targetNamespace key
          (List.Subset.trans (List.subset_append_left _ _) hs),
        backed_ofTrees h hb targetNamespace
          (List.Subset.trans (List.subset_append_right _ _) hs)⟩

end

/-- The text of plain fields in any pass unfolds to their inlined text, given the bodies of any
pass. -/
theorem unfolds (h : PlainEndpoint endpoint operations) {k : Nat} {bodies : Bodies}
    (hb : ∀ branch ∈ operations.branches, operations.Uniform known branch.name →
      bodies branch.name =
        some (branch.text known (registryAfter known endpoint operations k).references))
    {fields : Fields} (hp : FieldTree.PlainMembers (sharedNamespace endpoint) fields)
    (hs : FieldTree.allBranches fields ⊆ operations.branches) (j : Nat) :
    Unfolds (sharedNamespace endpoint) bodies
      (Shape.render .asNeeded
        (Shape.ofFields known (registryAfter known endpoint operations j).references fields))
      (Shape.render .asNeeded (Shape.inline known fields)) := by
  have hns := h.plainNamespace
  have hback : Outline.BackedMembers (operations.Uniform known) bodies
      (registryAfter known endpoint operations k).references (Outline.ofFields known fields) :=
    Outline.backedMembers_iff.2 fun entry he => Outline.backedMembers_iff.1
      (h.backed_ofTrees known hb _ hs) entry (Entries.mem_ofPairs he)
  rw [Outline.text_ofFields hns (sharedIn known j) known hp, Shape.inline,
    Outline.text_ofFields hns (Outline.sharedIn_none _) known hp]
  exact Outline.unfolds_text hns (h.sharedOf known k) (Outline.plain_ofFields hns known hp) hback
    (h.sharedOf known j)

end PlainEndpoint

namespace Catalog

/-- **Sharing preserves meaning.** A description can be built, and whatever catalog it is built
into: for each plain endpoint of it the types of all inputs and outputs unfold, with the bodies that
the catalog declares in the endpoint's namespace, to the texts that they have without sharing, and
every shared shape is declared there and unfolds to the inlined text of the branches of its name. -/
theorem build_unfolds {options : Options} (hq : options.quoting = .asNeeded)
    (hl : 1 ≤ options.maxPasses) {description : Description} (hd : description.Keyed)
    {service endpoint : String} {endpoints : Entries Operations} {operations : Operations}
    (hs : (service, endpoints) ∈ description) (he : (endpoint, operations) ∈ endpoints)
    (hp : PlainEndpoint endpoint operations) :
    (∃ catalog, (build options description empty).outcome = .ok catalog) ∧
    ∀ start catalog, (build options description start).outcome = .ok catalog →
      (∀ entry ∈ operations,
        (∃ text, catalog.typeBody? service endpoint (Signature.inputType entry.1) = some text ∧
          Unfolds (sharedNamespace endpoint) (catalog.sharedBody? service endpoint) text
            (Shape.render .asNeeded (Shape.inline options.known entry.2.input))) ∧
        ∃ text, catalog.typeBody? service endpoint (Signature.outputType entry.1) = some text ∧
          Unfolds (sharedNamespace endpoint) (catalog.sharedBody? service endpoint) text
            (Shape.render .asNeeded (Shape.inline options.known entry.2.output))) ∧
      ∀ name ∈ (settleEndpoint options endpoint operations).registry.registered.keys,
        ∃ text, catalog.sharedBody? service endpoint name = some text ∧
          ∃ branch ∈ operations.branches, branch.name = name ∧
            Unfolds (sharedNamespace endpoint) (catalog.sharedBody? service endpoint) text
              (branch.inlineText options.known) := by
  refine ⟨?_, fun start catalog hb => ?_⟩
  · obtain ⟨catalog, hb, -⟩ := inStep_empty.build options description
    exact ⟨catalog, hb⟩
  have hem := emitted_of_build hd hs he hb
  obtain ⟨k, hk⟩ := exists_settle_eq options.known hl endpoint operations
  rw [settleEndpoint, hk] at hem ⊢
  -- the bodies are those of the last pass, built against the registry before it
  have hbodies : ∀ branch ∈ operations.branches, operations.Uniform options.known branch.name →
      catalog.sharedBody? service endpoint branch.name = some (branch.text options.known
        (registryAfter options.known endpoint operations k).references) :=
    fun branch hm hu => hem.sharedBody (hp.value?_succ options.known hm hu k)
  have htype : ∀ entry ∈ operations, ∀ fields ∈ [entry.2.input, entry.2.output],
      Unfolds (sharedNamespace endpoint) (catalog.sharedBody? service endpoint)
        ((registryAfter options.known endpoint operations (k + 1)).render options fields)
        (Shape.render .asNeeded (Shape.inline options.known fields)) := by
    intro entry hm fields hf
    have hfields : fields ∈ operations.trees := List.mem_flatMap.2 ⟨entry, hm, hf⟩
    rw [Registry.render, Registry.shape, hq]
    exact hp.unfolds options.known hbodies (hp.trees fields hfields)
      (Operations.allBranches_subset_of_mem_trees hfields) (k + 1)
  refine ⟨fun entry hm => ⟨?_, ?_⟩, fun name hn => ?_⟩
  · exact ⟨_, hem.typeBody entry hm _ List.mem_cons_self,
      htype entry hm _ List.mem_cons_self⟩
  · exact ⟨_, hem.typeBody entry hm _ (List.mem_cons_of_mem _ List.mem_cons_self),
      htype entry hm _ (List.mem_cons_of_mem _ List.mem_cons_self)⟩
  · have hu := (hp.mem_keys_succ_iff options.known k name).1 hn
    obtain ⟨branch, hm, rfl⟩ := hu.exists_branch
    exact ⟨_, hbodies branch hm hu, branch, hm, rfl, hp.unfolds options.known hbodies
      (hp.branch hm).2 (Operations.allBranches_subset_branches hm) k⟩

/-- With a single pass the address book is cut off before it rests, and its type unfolds still. -/
theorem build_addressBook_unfolds :
    ∃ catalog text,
      (build { maxPasses := 1 } [("Directory", [("Book", .addressBook)])] empty).outcome =
        .ok catalog ∧
      catalog.typeBody? "Directory" "Book" "IFindOutput" = some text ∧
      Unfolds "BookTypes" (catalog.sharedBody? "Directory" "Book") text
        (Shape.render .asNeeded (Shape.inline [] [
          ("person", .branch [("address", .branch [("street", .leaf "street|xs:string")])]),
          ("address[]", .branch [("street", .leaf "street|xs:string")])])) := by
  have hd : Description.Keyed [("Directory", [("Book", .addressBook)])] := by
    constructor <;> simp [Entries.Distinct, Operations.addressBook]
  obtain ⟨⟨catalog, hb⟩, h⟩ := @build_unfolds { maxPasses := 1 } rfl (by decide) _ hd _ _ _ _
    List.mem_cons_self List.mem_cons_self plainEndpoint_addressBook
  obtain ⟨-, text, ht, hu⟩ := (h empty catalog hb).1 _ List.mem_cons_self
  exact ⟨catalog, text, hb, ht, hu⟩

end Catalog

end SoapTypes
