import SoapTypes.Catalog.Build
import SoapTypes.Proofs.EqualTexts
import SoapTypes.Proofs.StableRegistry

/-!
# What plain endpoints share

In a plain endpoint nothing but a reference can look like one. There the texts of a pass are equal
exactly if the texts without references are, so what is shared does not depend on the order of
events.

* `Registry.equal_texts_iff_inline`: two branches are one candidate in any pass exactly if their
  inlined texts are equal.
* `settle_shares_iff`: a name is shared exactly if its branches have one inlined text. This holds
  after the first pass and after every later one.
* `settle_passes_le`: the passes end once their number exceeds the nesting of the branches.
-/

namespace SoapTypes

open Text

/-- The name of an endpoint that needs no quotes: a letter or `_`, and then letters, digits and
`_`. -/
def isEndpointName : List Char → Bool
  | [] => false
  | c :: cs => (isLetter c || c == '_') && cs.all isDeclaredNamePart

/-- An endpoint in whose trees no field name, label or namespace holds a line break, a brace or what
a reference begins with. -/
structure PlainEndpoint (endpoint : String) (operations : Operations) : Prop where
  name : isEndpointName endpoint.toList = true
  trees : ∀ fields ∈ operations.trees, FieldTree.PlainMembers (sharedNamespace endpoint) fields

/-- A name with branches that all have the same inlined text. -/
structure Operations.Uniform (known : KnownEnums) (operations : Operations) (name : String) :
    Prop where
  exists_branch : ∃ branch ∈ operations.branches, branch.name = name
  same : ∀ branch ∈ operations.branches, ∀ other ∈ operations.branches, branch.name = name →
    other.name = name → branch.inlineText known = other.inlineText known

/-- The registry of an endpoint after some passes. -/
def registryAfter (known : KnownEnums) (endpoint : String) (operations : Operations) (k : Nat) :
    Registry :=
  (Registry.pass known operations)^[k] { ns := sharedNamespace endpoint }

theorem registryAfter_succ (known : KnownEnums) (endpoint : String) (operations : Operations)
    (k : Nat) :
    registryAfter known endpoint operations (k + 1) =
      (registryAfter known endpoint operations k).pass known operations :=
  Function.iterate_succ_apply' _ _ _

theorem sharedNamespace_ne_empty (endpoint : String) : sharedNamespace endpoint ≠ "" := by
  intro h
  have hl := congrArg (fun s => s.toList.length) h
  simp [sharedNamespace, String.toList_append] at hl

/-- The namespace of an endpoint that needs no quotes is plain. -/
theorem plainNamespace_of_isEndpointName {endpoint : String}
    (h : isEndpointName endpoint.toList = true) : PlainNamespace (sharedNamespace endpoint) := by
  cases hc : endpoint.toList with
  | nil => simp [hc, isEndpointName] at h
  | cons c cs =>
    rw [hc, isEndpointName, Bool.and_eq_true, List.all_eq_true] at h
    have hfirst : isDeclaredNamePart c = true := by
      have h1 := h.1
      simp only [Bool.or_eq_true] at h1
      rcases h1 with h1 | h1 <;> simp [isDeclaredNamePart, h1]
    constructor
    · intro d hd
      rw [sharedNamespace, String.toList_append, hc, List.mem_append, List.mem_cons] at hd
      rcases hd with (rfl | hd) | hd
      · exact hfirst
      · exact h.2 d hd
      · have ht : "Types".toList.all isDeclaredNamePart = true := by decide
        exact List.all_eq_true.1 ht d hd
    · simp [sharedNamespace, String.toList_append, hc]

theorem idle_registryAfter (known : KnownEnums) (endpoint : String) (operations : Operations)
    (k : Nat) : (registryAfter known endpoint operations k).Idle :=
  (Registry.idle_fresh (sharedNamespace_ne_empty endpoint)).iterate_pass known operations k

@[simp] theorem ns_registryAfter (known : KnownEnums) (endpoint : String)
    (operations : Operations) (k : Nat) :
    (registryAfter known endpoint operations k).ns = sharedNamespace endpoint :=
  Registry.ns_iterate_pass known operations _ k

/-- The references of a registry belong to its namespace. -/
theorem Registry.sharedIn {registry : Registry} (h : registry.isActive = true) :
    Outline.SharedIn registry.ns registry.references where
  eq_reference := by
    intro name text reference hr
    rw [references_apply h] at hr
    split at hr
    · exact (Option.some.inj hr).symm
    · cases hr
  unique := by
    intro name text other reference reference' hr hr'
    rw [references_apply h] at hr hr'
    split at hr
    · rename_i hv
      split at hr'
      · rename_i hv'
        exact Option.some.inj (hv.symm.trans hv')
      · cases hr'
    · cases hr

/-- **Plain trees have equal texts against any registry of an endpoint exactly if their inlined texts
are equal.** So in no pass are two branches one candidate that are two in another pass. -/
theorem Registry.equal_texts_iff_inline {endpoint : String}
    (hn : isEndpointName endpoint.toList = true) {registry : Registry}
    (hr : registry.ns = sharedNamespace endpoint) (known : KnownEnums) {fields other : Fields}
    (hf : FieldTree.PlainMembers registry.ns fields)
    (ho : FieldTree.PlainMembers registry.ns other) :
    Shape.render .asNeeded (registry.shape known fields) =
        Shape.render .asNeeded (registry.shape known other) ↔
      Shape.render .asNeeded (Shape.inline known fields) =
        Shape.render .asNeeded (Shape.inline known other) := by
  have hns : PlainNamespace registry.ns := by
    rw [hr]
    exact plainNamespace_of_isEndpointName hn
  have ha : registry.isActive = true := by
    simp [isActive, hr, sharedNamespace_ne_empty]
  exact Outline.render_eq_iff_inline hns (Registry.sharedIn ha) known hf ho

/-- The labels of a street are two texts of one type, so the text with the shared address is one
text too. -/
theorem Registry.equal_texts_iff_inline_address :
    let registry : Registry :=
      { ns := "BookTypes", registered := [("address", "\x7b\n    street: string;\n\x7d")] }
    let fields : Fields := [("address", .branch [("street", .leaf "street|xs:string")])]
    let other : Fields := [("address", .branch [("street", .leaf "street|xs:token")])]
    Shape.render .asNeeded (registry.shape [] fields) =
        "\x7b\n    address: BookTypes.Iaddress;\n\x7d" ∧
      Shape.render .asNeeded (registry.shape [] fields) =
        Shape.render .asNeeded (registry.shape [] other) := by
  intro registry fields other
  have hplain : ∀ label, PlainText registry.ns label →
      FieldTree.PlainMembers registry.ns [("address", .branch [("street", .leaf label)])] := by
    intro label hl
    have hkey : ∀ key ∈ ["address", "street"],
        key ≠ FieldTree.targetNamespaceKey ∧ PlainText registry.ns key := by decide
    have haddress := hkey "address" (by decide)
    have hstreet := hkey "street" (by decide)
    exact ⟨fun h => absurd h haddress.1, fun _ => ⟨haddress.2,
      fun h => absurd h hstreet.1, fun _ => ⟨hstreet.2, hl⟩, trivial⟩, trivial⟩
  have hname : isEndpointName "Book".toList = true := by decide
  refine ⟨by decide +kernel, ?_⟩
  exact (Registry.equal_texts_iff_inline hname rfl [] (hplain _ (by decide))
    (hplain _ (by decide))).2 (by decide +kernel)

mutual

/-- The branches of a plain member have plain names and fields. -/
theorem FieldTree.plain_of_mem_branches {ns key : String} (hk : PlainText ns key) :
    ∀ {tree : FieldTree}, tree.Plain ns → ∀ {branch : Branch}, branch ∈ tree.branches key →
      PlainText ns branch.name ∧ PlainMembers ns branch.fields
  | .leaf _, _, _, hm => by simp [branches] at hm
  | .branch members, h, inner, hm => by
    rw [branches, List.mem_append] at hm
    rcases hm with hm | hm
    · exact plain_of_mem_allBranches h hm
    · rw [List.mem_singleton.1 hm]
      exact ⟨plainText_fieldName hk, h⟩

theorem FieldTree.plain_of_mem_allBranches {ns : String} :
    ∀ {members : List (String × FieldTree)}, PlainMembers ns members →
      ∀ {branch : Branch}, branch ∈ allBranches members →
        PlainText ns branch.name ∧ PlainMembers ns branch.fields
  | [], _, _, hm => by simp [allBranches] at hm
  | (key, tree) :: members, ⟨_, hf, hp⟩, inner, hm => by
    rw [allBranches] at hm
    split at hm
    · exact plain_of_mem_allBranches hp hm
    · rename_i hk
      obtain ⟨hkey, htree⟩ := hf (by simpa using hk)
      rcases List.mem_append.1 hm with hm | hm
      · exact plain_of_mem_branches hkey htree hm
      · exact plain_of_mem_allBranches hp hm

end

namespace PlainEndpoint

variable {endpoint : String} {operations : Operations}

/-- The namespace of a plain endpoint is plain. -/
theorem plainNamespace (h : PlainEndpoint endpoint operations) :
    PlainNamespace (sharedNamespace endpoint) := plainNamespace_of_isEndpointName h.name

/-- The branches of a plain endpoint have plain names and fields. -/
theorem branch (h : PlainEndpoint endpoint operations) {branch : Branch}
    (hb : branch ∈ operations.branches) :
    PlainText (sharedNamespace endpoint) branch.name ∧
      FieldTree.PlainMembers (sharedNamespace endpoint) branch.fields := by
  obtain ⟨fields, hf, hm⟩ := Operations.mem_branches.1 hb
  exact FieldTree.plain_of_mem_allBranches (h.trees fields hf) hm

variable (known : KnownEnums)

theorem sharedIn (k : Nat) : Outline.SharedIn (sharedNamespace endpoint)
    (registryAfter known endpoint operations k).references := by
  have hs := Registry.sharedIn (idle_registryAfter known endpoint operations k).active
  rwa [ns_registryAfter] at hs

/-- Branches have equal texts in a pass exactly if their inlined texts are equal. -/
theorem text_eq_iff (h : PlainEndpoint endpoint operations) (k : Nat) {branch other : Branch}
    (hb : branch ∈ operations.branches) (ho : other ∈ operations.branches) :
    branch.text known (registryAfter known endpoint operations k).references =
        other.text known (registryAfter known endpoint operations k).references ↔
      branch.inlineText known = other.inlineText known := by
  exact Outline.render_eq_iff_inline h.plainNamespace (sharedIn known k) known (h.branch hb).2
    (h.branch ho).2

/-! ### Which names are shared -/

/-- The texts of a name are one text in every pass, if the branches have one inlined text. -/
theorem mem_texts_iff (h : PlainEndpoint endpoint operations) {branch : Branch}
    (hb : branch ∈ operations.branches) (hu : operations.Uniform known branch.name) (k : Nat)
    (text : String) :
    text ∈ operations.texts known (registryAfter known endpoint operations k).references
        branch.name ↔
      text = branch.text known (registryAfter known endpoint operations k).references := by
  rw [Operations.mem_texts]
  constructor
  · rintro ⟨other, ho, hn, rfl⟩
    exact (h.text_eq_iff known k ho hb).2 (hu.same other ho branch hb hn rfl)
  · rintro rfl
    exact ⟨branch, hb, rfl, rfl⟩

/-- A name with one inlined text is shared after every pass, with the text that its branches had in
this pass. -/
theorem value?_succ (h : PlainEndpoint endpoint operations) {branch : Branch}
    (hb : branch ∈ operations.branches) (hu : operations.Uniform known branch.name) (k : Nat) :
    (registryAfter known endpoint operations (k + 1)).registered.value? branch.name =
      some (branch.text known (registryAfter known endpoint operations k).references) := by
  rw [registryAfter_succ, Registry.value?_pass known operations
    (idle_registryAfter known endpoint operations k)]
  exact Registry.settledText_eq_some (h.mem_texts_iff known hb hu k)

/-- Any other name is shared at no time. -/
theorem value?_eq_none (h : PlainEndpoint endpoint operations) {name : String}
    (hu : ¬ operations.Uniform known name) (k : Nat) :
    (registryAfter known endpoint operations k).registered.value? name = none := by
  induction k with
  | zero => rfl
  | succ k ih =>
    rw [registryAfter_succ, Registry.value?_pass known operations
      (idle_registryAfter known endpoint operations k), ih, Option.eq_none_iff_forall_ne_some]
    intro text ht
    have hiff := Registry.settledText_none_eq_some.1 ht
    -- one text for all branches in this pass would be one inlined text
    obtain ⟨branch, hb, hn, -⟩ := Operations.mem_texts.1 ((hiff text).2 rfl)
    refine hu ⟨⟨branch, hb, hn⟩, fun first hf other ho hfn hon => ?_⟩
    rw [← h.text_eq_iff known k hf ho,
      (hiff _).1 (Operations.mem_texts.2 ⟨first, hf, hfn, rfl⟩),
      (hiff _).1 (Operations.mem_texts.2 ⟨other, ho, hon, rfl⟩)]

/-- The names that are shared are the same after every pass. -/
theorem mem_keys_succ_iff (h : PlainEndpoint endpoint operations) (k : Nat) (name : String) :
    name ∈ (registryAfter known endpoint operations (k + 1)).registered.keys ↔
      operations.Uniform known name := by
  rw [← Entries.value?_isSome_iff]
  constructor
  · intro hs
    by_contra hu
    rw [h.value?_eq_none known hu] at hs
    cases hs
  · intro hu
    obtain ⟨branch, hb, rfl⟩ := hu.exists_branch
    rw [h.value?_succ known hb hu]
    rfl

/-! ### When texts rest -/

/-- The shared text of a branch that nests less deep than the passes are many is final. -/
theorem value?_eq_of_height_lt (h : PlainEndpoint endpoint operations) {j k : Nat} (hkj : k ≤ j)
    {branch : Branch} (hb : branch ∈ operations.branches)
    (hk : FieldTree.heightAll branch.fields < k) :
    (registryAfter known endpoint operations j).registered.value? branch.name =
      (registryAfter known endpoint operations k).registered.value? branch.name := by
  -- induction on the earlier pass: both texts are built against the registries before them
  induction k generalizing j branch with
  | zero => omega
  | succ k ih =>
    obtain ⟨j, rfl⟩ : ∃ i, j = i + 1 := ⟨j - 1, by omega⟩
    by_cases hu : operations.Uniform known branch.name
    · rw [h.value?_succ known hb hu, h.value?_succ known hb hu]
      -- the branches below this one have their final texts already
      have hs : Shape.ofFields known (registryAfter known endpoint operations j).references
            branch.fields =
          Shape.ofFields known (registryAfter known endpoint operations k).references
            branch.fields := by
        refine Shape.ofFields_congr fun inner hi => ?_
        have hlt := FieldTree.heightAll_fields_lt hi
        unfold Shape.AgreeOn
        rw [Registry.references_apply (idle_registryAfter known endpoint operations j).active,
          Registry.references_apply (idle_registryAfter known endpoint operations k).active,
          ih (by omega) (Operations.allBranches_subset_branches hb hi) (by omega)]
        simp [Registry.reference]
      unfold Branch.text
      rw [hs]
    · rw [h.value?_eq_none known hu, h.value?_eq_none known hu]

/-- Once the passes are as many as branches are inside each other, nothing changes any more. -/
theorem value?_registryAfter_height (h : PlainEndpoint endpoint operations) {j : Nat}
    (hj : operations.height ≤ j) (name : String) :
    (registryAfter known endpoint operations j).registered.value? name =
      (registryAfter known endpoint operations operations.height).registered.value? name := by
  by_cases hu : operations.Uniform known name
  · obtain ⟨branch, hb, rfl⟩ := hu.exists_branch
    exact h.value?_eq_of_height_lt known hj hb (Operations.heightAll_fields_lt_height hb)
  · rw [h.value?_eq_none known hu, h.value?_eq_none known hu]

theorem sameShared_registryAfter (h : PlainEndpoint endpoint operations) {j : Nat}
    (hj : operations.height ≤ j) :
    Registry.sameShared (registryAfter known endpoint operations j)
      (registryAfter known endpoint operations (j + 1)) = true := by
  rw [Registry.sameShared_iff (idle_registryAfter known endpoint operations j)
    (idle_registryAfter known endpoint operations (j + 1))]
  intro name
  rw [h.value?_registryAfter_height known hj,
    h.value?_registryAfter_height known (show operations.height ≤ j + 1 by omega)]

end PlainEndpoint

/-- Some passes are made if the limit allows any. -/
theorem exists_settle_eq (known : KnownEnums) {limit : Int} (hl : 1 ≤ limit) (endpoint : String)
    (operations : Operations) :
    ∃ k, (settle known limit endpoint operations { ns := sharedNamespace endpoint }).registry =
      registryAfter known endpoint operations (k + 1) := by
  rcases settle_cases known limit endpoint operations { ns := sharedNamespace endpoint } with
    ⟨k, -, he, -, -⟩ | ⟨he, -⟩
  · exact ⟨k, by rw [he]; rfl⟩
  · refine ⟨limit.toNat - 1, ?_⟩
    rw [he, show limit.toNat - 1 + 1 = limit.toNat by omega]
    rfl

/-- **A plain endpoint shares a name exactly if its branches have one inlined text**, at the end and
after every pass. -/
theorem settle_shares_iff {endpoint : String} {operations : Operations}
    (h : PlainEndpoint endpoint operations) (known : KnownEnums) {limit : Int} (hl : 1 ≤ limit)
    (name : String) :
    (name ∈ (settle known limit endpoint operations
        { ns := sharedNamespace endpoint }).registry.registered.keys ↔
      operations.Uniform known name) ∧
    ∀ k, name ∈ (registryAfter known endpoint operations (k + 1)).registered.keys ↔
      operations.Uniform known name := by
  refine ⟨?_, fun k => h.mem_keys_succ_iff known k name⟩
  obtain ⟨k, hk⟩ := exists_settle_eq known hl endpoint operations
  rw [hk]
  exact h.mem_keys_succ_iff known k name

/-- The address book is a plain endpoint. -/
theorem plainEndpoint_addressBook : PlainEndpoint "Book" .addressBook where
  name := by decide
  trees := by
    simp [Operations.trees, Operations.addressBook, FieldTree.PlainMembers, FieldTree.Plain,
      FieldTree.targetNamespaceKey]
    decide

/-- One pass over the address book is enough to share its addresses. -/
theorem address_shared_of_addressBook :
    "address" ∈ (settle [] 1 "Book" .addressBook
      { ns := sharedNamespace "Book" }).registry.registered.keys := by
  refine (settle_shares_iff plainEndpoint_addressBook [] (by decide) "address").1.2 ⟨?_, ?_⟩
  · decide
  · decide +kernel

/-- **The passes over a plain endpoint end after at most one more than there are branches inside
each other**, and without a warning. -/
theorem settle_passes_le {endpoint : String} {operations : Operations}
    (h : PlainEndpoint endpoint operations) (known : KnownEnums) {limit : Int}
    (hl : operations.height + 1 ≤ limit) :
    let settled := settle known limit endpoint operations { ns := sharedNamespace endpoint }
    settled.passes ≤ operations.height + 1 ∧
      settled.registry.pass known operations = settled.registry ∧
      settled.notice.warning? = none := by
  rcases settle_cases known limit endpoint operations { ns := sharedNamespace endpoint } with
    ⟨k, -, he, hs, hb⟩ | ⟨he, hb⟩
  · -- the pass that ended the work was the first that changed nothing
    have hk : k ≤ operations.height := by
      by_contra hlt
      have hsame := h.sameShared_registryAfter known (Nat.le_refl operations.height)
      exact absurd hsame (by simpa [registryAfter] using hb operations.height (by omega))
    rw [he]
    refine ⟨?_, ?_, rfl⟩
    · show ((k + 1 : Nat) : Int) ≤ _
      omega
    · exact (Registry.stable_of_sameShared (sharedNamespace_ne_empty endpoint) k hs).pass_eq
  · have hsame := h.sameShared_registryAfter known (Nat.le_refl operations.height)
    exact absurd hsame (by simpa [registryAfter] using hb operations.height (by omega))

/-- Three passes over the address book come to rest, since its branches nest twice. -/
theorem passes_addressBook_le :
    (settle [] 3 "Book" .addressBook { ns := sharedNamespace "Book" }).passes ≤ 3 :=
  (settle_passes_le plainEndpoint_addressBook [] (by decide)).1

end SoapTypes
