import SoapTypes.Proofs.EmittedTypes

/-!
# References that are placed

A reference that is placed names a shape that is shared at that time. The types of operations are
written with the registry of the last pass, and what it shares is what the catalog declares. The
body of a shared shape is older: it was taken from a branch in some pass, and what that pass or a
later one has dropped it may still refer to.

* `exists_takenFrom`: every shared text was taken from a branch in some pass.
* `dropped_of_keys`: a name is dropped only where two of its branches disagree in one pass.
* `Catalog.references_declared`: which references name a declared shape.
* `Catalog.reference_undeclared`: a body that refers to a name dropped in the pass it comes from.
-/

namespace SoapTypes

/-- The text that is shared under a name after `k` passes was taken from a branch in the pass that
follows the first `j` ones, and stayed since then. -/
structure TakenFrom (known : KnownEnums) (endpoint : String) (operations : Operations) (k : Nat)
    (name : String) (j : Nat) (branch : Branch) : Prop where
  before : j < k
  mem : branch ∈ operations.branches
  name_eq : branch.name = name
  new : (registryAfter known endpoint operations j).registered.value? name ≠
    some (branch.text known (registryAfter known endpoint operations j).references)
  kept : ∀ i, j < i → i ≤ k →
    (registryAfter known endpoint operations i).registered.value? name =
      some (branch.text known (registryAfter known endpoint operations j).references)

/-- The pass that follows the first `i` ones drops a name: two branches of the name have different
texts in it, and neither has the text that was shared. -/
structure Dropped (known : KnownEnums) (endpoint : String) (operations : Operations) (i : Nat)
    (name : String) : Prop where
  shared : name ∈ (registryAfter known endpoint operations i).registered.keys
  gone : name ∉ (registryAfter known endpoint operations (i + 1)).registered.keys
  conflict : ∃ text ∈ operations.texts known
      (registryAfter known endpoint operations i).references name,
    ∃ other ∈ operations.texts known
      (registryAfter known endpoint operations i).references name,
    text ≠ other ∧
      (registryAfter known endpoint operations i).registered.value? name ≠ some text ∧
      (registryAfter known endpoint operations i).registered.value? name ≠ some other

section Passes

variable {known : KnownEnums} {endpoint : String} {operations : Operations}

/-- The text of a name after one more pass. -/
theorem value?_registryAfter_succ (known : KnownEnums) (endpoint : String)
    (operations : Operations) (k : Nat) (name : String) :
    (registryAfter known endpoint operations (k + 1)).registered.value? name =
      Registry.settledText ((registryAfter known endpoint operations k).registered.value? name)
        (operations.texts known (registryAfter known endpoint operations k).references name) := by
  rw [registryAfter_succ,
    Registry.value?_pass known operations (idle_registryAfter known endpoint operations k)]

/-- **Every shared text was taken from a branch in some pass.** -/
theorem exists_takenFrom {k : Nat} {name text : String}
    (h : (registryAfter known endpoint operations k).registered.value? name = some text) :
    ∃ j branch, TakenFrom known endpoint operations k name j branch ∧
      branch.text known (registryAfter known endpoint operations j).references = text := by
  induction k with
  | zero => cases h
  | succ k ih =>
    have hs := h
    rw [value?_registryAfter_succ, Registry.settledText] at hs
    split at hs
    · -- no other text was met, so the text is that of the pass before
      obtain ⟨j, branch, ht, rfl⟩ := ih hs
      refine ⟨j, branch, ⟨by have := ht.before; omega, ht.mem, ht.name_eq, ht.new, ?_⟩, rfl⟩
      intro i hj hi
      rcases Nat.lt_or_ge k i with hk | hk
      · obtain rfl : i = k + 1 := by omega
        exact h
      · exact ht.kept i hj hk
    · rename_i first others hu
      split at hs
      · obtain rfl := Option.some.inj hs
        obtain ⟨hm, hne⟩ := Registry.mem_unshared.1 (hu ▸ List.mem_cons_self)
        obtain ⟨branch, hb, hn, rfl⟩ := Operations.mem_texts.1 hm
        refine ⟨k, branch, ⟨by omega, hb, hn, hne, fun i hj hi => ?_⟩, rfl⟩
        obtain rfl : i = k + 1 := by omega
        exact h
      · cases hs

/-- A name that is shared before a pass and not after it is dropped by a conflict. -/
theorem dropped_of_keys {i : Nat} {name : String}
    (h : name ∈ (registryAfter known endpoint operations i).registered.keys)
    (hg : name ∉ (registryAfter known endpoint operations (i + 1)).registered.keys) :
    Dropped known endpoint operations i name := by
  refine ⟨h, hg, ?_⟩
  have hnone := Entries.value?_eq_none_iff.2 hg
  rw [value?_registryAfter_succ, Registry.settledText] at hnone
  split at hnone
  · exact absurd h (Entries.value?_eq_none_iff.1 hnone)
  · rename_i first others hu
    split at hnone
    · cases hnone
    · rename_i hall
      simp only [not_forall] at hall
      obtain ⟨other, ho, hne⟩ := hall
      obtain ⟨hf, hfs⟩ := Registry.mem_unshared.1 (hu ▸ List.mem_cons_self)
      obtain ⟨hom, hos⟩ := Registry.mem_unshared.1 (hu ▸ List.mem_cons_of_mem _ ho)
      exact ⟨first, hf, other, hom, fun e => hne e.symm, hfs, hos⟩

/-- A name that was shared once and is not any more was dropped on the way. -/
theorem exists_dropped {j k : Nat} {name : String} (hjk : j ≤ k)
    (h : name ∈ (registryAfter known endpoint operations j).registered.keys)
    (hk : name ∉ (registryAfter known endpoint operations k).registered.keys) :
    ∃ i, j ≤ i ∧ i < k ∧ Dropped known endpoint operations i name := by
  induction k with
  | zero =>
    obtain rfl : j = 0 := by omega
    exact absurd h hk
  | succ k ih =>
    by_cases hm : name ∈ (registryAfter known endpoint operations k).registered.keys
    · rcases Nat.lt_or_ge k j with hj | hj
      · obtain rfl : j = k + 1 := by omega
        exact absurd h hk
      · exact ⟨k, hj, by omega, dropped_of_keys hm hk⟩
    · have hj : j ≤ k := by
        by_contra hj
        obtain rfl : j = k + 1 := by omega
        exact hk h
      obtain ⟨i, hi, hik, hd⟩ := ih hj hm
      exact ⟨i, hi, by omega, hd⟩

/-- The names that are placed while a branch is built in a pass are shared in this pass. -/
theorem mem_keys_of_placed {k : Nat} {fields : Fields} {name : String}
    (h : name ∈ FieldTree.allPlaced known (registryAfter known endpoint operations k).references
      fields) : name ∈ (registryAfter known endpoint operations k).registered.keys :=
  Registry.mem_keys_of_mem_allPlaced (idle_registryAfter known endpoint operations k) h

/-- In a plain endpoint nothing that was shared once is dropped. -/
theorem PlainEndpoint.not_dropped (h : PlainEndpoint endpoint operations) (i : Nat)
    (name : String) : ¬ Dropped known endpoint operations i name := by
  intro hd
  cases i with
  | zero => exact absurd hd.shared (by simp [registryAfter])
  | succ i =>
    exact hd.gone ((h.mem_keys_succ_iff known (i + 1) name).2
      ((h.mem_keys_succ_iff known i name).1 hd.shared))

end Passes

namespace Catalog

/-- The registry at the end is that after as many passes as were made. -/
theorem registry_settleEndpoint (options : Options) (endpoint : String) (operations : Operations) :
    (settleEndpoint options endpoint operations).registry =
      registryAfter options.known endpoint operations
        (settleEndpoint options endpoint operations).passes.toNat := by
  unfold settleEndpoint
  rcases settle_cases options.known options.maxPasses endpoint operations
    { ns := sharedNamespace endpoint } with ⟨k, -, he, -, -⟩ | ⟨he, -⟩
  · rw [he]
    rfl
  · rw [he]
    rfl

/-- Passes that end without a warning leave a stable registry. -/
theorem stable_settleEndpoint {options : Options} {endpoint : String} {operations : Operations}
    (hw : (settleEndpoint options endpoint operations).notice.warning? = none) :
    (settleEndpoint options endpoint operations).registry.Stable options.known operations := by
  unfold settleEndpoint at hw ⊢
  rcases settle_cases options.known options.maxPasses endpoint operations
    { ns := sharedNamespace endpoint } with ⟨k, -, he, hsame, -⟩ | ⟨he, -⟩
  · rw [he]
    exact Registry.stable_of_sameShared (sharedNamespace_ne_empty endpoint) k hsame
  · rw [he] at hw
    cases hw

/-- **Which references name a declared shape.** A description can be built, and whatever catalog it
is built into, for each endpoint of it:

* the types of operations are written with the last registry, and every reference that is placed in
  one of them names a declared shape;
* the declared body of a shared shape was taken from a branch in some pass, and a reference that was
  placed in it there names a declared shape, unless that pass or a later one dropped the name. In a
  plain endpoint no pass does;
* if the passes ended without a warning, the declared bodies are the texts that the branches have
  with the last registry, and every reference that is placed in them names a declared shape. -/
theorem references_declared (options : Options) {description : Description}
    (hd : description.Keyed) {service endpoint : String} {endpoints : Entries Operations}
    {operations : Operations} (hs : (service, endpoints) ∈ description)
    (he : (endpoint, operations) ∈ endpoints) :
    (∃ catalog, (build options description empty).outcome = .ok catalog) ∧
    ∀ start catalog, (build options description start).outcome = .ok catalog →
      let settled := settleEndpoint options endpoint operations
      let Declared := fun name => (catalog.sharedBody? service endpoint name).isSome = true
      (∀ entry ∈ operations, ∀ direction ∈ [(Signature.inputType entry.1, entry.2.input),
          (Signature.outputType entry.1, entry.2.output)],
        catalog.typeBody? service endpoint direction.1 =
          some (settled.registry.render options direction.2) ∧
        ∀ name ∈ FieldTree.allPlaced options.known settled.registry.references direction.2,
          Declared name) ∧
      (∀ name body, settled.registry.registered.value? name = some body →
        catalog.sharedBody? service endpoint name = some body ∧
        (∃ j branch,
          TakenFrom options.known endpoint operations settled.passes.toNat name j branch ∧
          branch.text options.known
            (registryAfter options.known endpoint operations j).references = body) ∧
        ∀ j branch, TakenFrom options.known endpoint operations settled.passes.toNat name j branch →
          ∀ placed ∈ FieldTree.allPlaced options.known
              (registryAfter options.known endpoint operations j).references branch.fields,
            Declared placed ∨ ¬ PlainEndpoint endpoint operations ∧
              ∃ i, j ≤ i ∧ i < settled.passes.toNat ∧
                Dropped options.known endpoint operations i placed) ∧
      (settled.notice.warning? = none → ∀ branch ∈ operations.branches,
        branch.name ∈ settled.registry.registered.keys →
          catalog.sharedBody? service endpoint branch.name =
            some (branch.text options.known settled.registry.references) ∧
          ∀ placed ∈ FieldTree.allPlaced options.known settled.registry.references branch.fields,
            Declared placed) := by
  refine ⟨?_, fun start catalog hb => ?_⟩
  · obtain ⟨catalog, hb, -⟩ := inStep_empty.build options description
    exact ⟨catalog, hb⟩
  intro settled Declared
  have hem := emitted_of_build hd hs he hb
  have hidle : settled.registry.Idle := (settleEndpoint_spec options endpoint operations).1
  have hlast : settled.registry = registryAfter options.known endpoint operations
      settled.passes.toNat := registry_settleEndpoint options endpoint operations
  -- what the last registry shares is declared
  have hdeclared : ∀ name ∈ settled.registry.registered.keys, Declared name := by
    intro name hn
    obtain ⟨body, hv⟩ := Option.isSome_iff_exists.1 (Entries.value?_isSome_iff.2 hn)
    show (catalog.sharedBody? service endpoint name).isSome = true
    rw [hem.sharedBody hv]
    rfl
  refine ⟨fun entry hm direction hdir => ⟨?_, fun name hp => ?_⟩, fun name body hv => ⟨?_, ?_, ?_⟩,
    fun hw branch hm hk => ⟨?_, fun placed hp => ?_⟩⟩
  · exact hem.typeBody_of_direction hm hdir
  · exact hdeclared name (Registry.mem_keys_of_mem_allPlaced hidle hp)
  · exact hem.sharedBody hv
  · rw [hlast] at hv
    exact exists_takenFrom hv
  · intro j branch ht placed hp
    by_cases hk : placed ∈ settled.registry.registered.keys
    · exact .inl (hdeclared placed hk)
    · rw [hlast] at hk
      obtain ⟨i, hi, hik, hdrop⟩ :=
        exists_dropped (Nat.le_of_lt ht.before) (mem_keys_of_placed hp) hk
      exact .inr ⟨fun hplain => hplain.not_dropped i placed hdrop, i, hi, hik, hdrop⟩
  · have hstable := stable_settleEndpoint hw
    obtain ⟨body, hv⟩ := Option.isSome_iff_exists.1 (Entries.value?_isSome_iff.2 hk)
    rw [hem.sharedBody hv, ← ((hstable.shared_iff branch.name body).1 hv _).1
      (Operations.mem_texts.2 ⟨branch, hm, rfl, rfl⟩)]
  · exact hdeclared placed (Registry.mem_keys_of_mem_allPlaced hidle hp)

/-- After two passes over the address book, which are not enough to come to rest, the reference to
the address in its output names a declared shape. -/
theorem references_declared_addressBook :
    ∃ catalog, (build { maxPasses := 2 } [("Directory", [("Book", .addressBook)])] empty).outcome =
        .ok catalog ∧
      "address" ∈ FieldTree.allPlaced [] (settleEndpoint { maxPasses := 2 } "Book"
        .addressBook).registry.references
          [("address[]", .branch [("street", .leaf "street|xs:string")])] ∧
      (catalog.sharedBody? "Directory" "Book" "address").isSome = true := by
  have hd : Description.Keyed [("Directory", [("Book", .addressBook)])] := by decide
  obtain ⟨⟨catalog, hb⟩, h⟩ := @references_declared { maxPasses := 2 } _ hd _ _ _ _
    List.mem_cons_self List.mem_cons_self
  obtain ⟨-, hp⟩ := (h empty catalog hb).1 _ List.mem_cons_self _
    (List.mem_cons_of_mem _ List.mem_cons_self)
  exact ⟨catalog, hb, by decide +kernel, hp "address" (by decide +kernel)⟩

/-- A leaf with a label that is written like an object of one string, inside another one. -/
def writtenOut : FieldTree := .leaf "\x7b\n        \"full name\": string;\n    \x7d"

/-- The object of one string. -/
def namedObject : FieldTree := .branch [("full name", .leaf "string")]

/-- A person with an address whose two fields are such leaves. -/
def visited : Branch :=
  ⟨"person", false, [("address", .branch [("street", writtenOut), ("city", writtenOut)])]⟩

/-- Three addresses with the same text as long as nothing is shared. The first two come to differ
when streets and cities are shared, and the third, in a person, stays as it is. -/
def lookalikes : Operations :=
  [("Find", ⟨[], [("address", .branch [("street", namedObject), ("city", writtenOut)])]⟩),
    ("Move", ⟨[], [("address", .branch [("street", writtenOut), ("city", namedObject)])]⟩),
    ("Visit", ⟨[], [("person", .branch visited.fields)]⟩)]

/-- **A reference that names no declared shape.** The second pass refers to the address in the body
of the person and drops the address, and the passes are cut off behind it. -/
theorem reference_undeclared :
    ∃ catalog, Description.Keyed [("Directory", [("Book", lookalikes)])] ∧
      (build { maxPasses := 2 } [("Directory", [("Book", lookalikes)])] empty).outcome =
        .ok catalog ∧
      "address" ∈ FieldTree.allPlaced [] (registryAfter [] "Book" lookalikes 1).references
        visited.fields ∧
      TakenFrom [] "Book" lookalikes 2 "person" 1 visited ∧
      catalog.sharedBody? "Directory" "Book" "person" =
        some "\x7b\n    address: BookTypes.Iaddress;\n\x7d" ∧
      catalog.sharedBody? "Directory" "Book" "address" = none := by
  have hd : Description.Keyed [("Directory", [("Book", lookalikes)])] := by decide
  obtain ⟨catalog, hb, -⟩ := inStep_empty.build { maxPasses := 2 }
    [("Directory", [("Book", lookalikes)])]
  have h : (build { maxPasses := 2 } [("Directory", [("Book", lookalikes)])]
      empty).outcome.toOption.map (fun catalog =>
        decide (catalog.sharedBody? "Directory" "Book" "person" =
            some "\x7b\n    address: BookTypes.Iaddress;\n\x7d" ∧
          catalog.sharedBody? "Directory" "Book" "address" = none)) = some true := by
    decide +kernel
  rw [hb] at h
  -- the first pass shares the address, the second one drops it and takes the text of the person
  have hpasses : "address" ∈ FieldTree.allPlaced []
        (registryAfter [] "Book" lookalikes 1).references visited.fields ∧
      (registryAfter [] "Book" lookalikes 1).registered.value? "person" ≠
        some (visited.text [] (registryAfter [] "Book" lookalikes 1).references) ∧
      (registryAfter [] "Book" lookalikes 2).registered.value? "person" =
        some (visited.text [] (registryAfter [] "Book" lookalikes 1).references) := by
    decide +kernel
  obtain ⟨hplaced, hnew, hkept⟩ := hpasses
  refine ⟨catalog, hd, hb, hplaced, ⟨by decide, ?_, rfl, hnew, ?_⟩,
    of_decide_eq_true (Option.some.inj h)⟩
  · refine Operations.mem_branches.2 ⟨_, List.mem_flatMap.2 ⟨_, List.mem_cons_of_mem _
      (List.mem_cons_of_mem _ List.mem_cons_self), List.mem_cons_of_mem _ List.mem_cons_self⟩, ?_⟩
    have hm := @FieldTree.mem_allBranches_of_mem [("person", .branch visited.fields)] "person" _
      List.mem_cons_self (by decide)
    have hname : FieldTree.fieldName "person" = "person" := by decide
    have harray : FieldTree.isArrayKey "person" = false := by decide
    rw [hname, harray] at hm
    exact hm
  · intro i hj hi
    obtain rfl : i = 2 := by omega
    exact hkept

end Catalog

end SoapTypes
