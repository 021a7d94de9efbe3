import SoapTypes.Proofs.Expansion
import SoapTypes.Proofs.MergedTables

/-!
# What merged types mean

Two descriptions can share different shapes under one field name of an endpoint. A merge keeps the
types of an operation that only one of them defines, but takes the shared shapes that these types
refer to from the later catalog, where it has them.

* `Expansion.iterate_expand_congr`: how a text is expanded depends only on the bodies of the names
  that are met on the way.
* `Catalog.merge_keeps_types`: the types of an operation stay, every shared shape is the later one,
  and the types mean what they meant if no name that they refer to has two different shapes.
* `Catalog.merge_changes_meaning`: they can mean something else if there is such a name.
-/

namespace SoapTypes

namespace Expansion

open Text

variable {ns : String} {bodies bodies' : Bodies}

/-- One expansion of a text depends only on the bodies of its references. -/
theorem expand_congr {text : String}
    (h : ∀ name ∈ references ns text, bodies name = bodies' name) :
    expand ns bodies text = expand ns bodies' text := by
  have hline : ∀ line ∈ linesOf text, expandLine ns bodies line = expandLine ns bodies' line := by
    intro line hl
    unfold expandLine
    cases hr : readLine ns line with
    | none => rfl
    | some reference =>
      have hm : reference.name ∈ references ns text := by
        refine List.mem_filterMap.2 ⟨line, hl, ?_⟩
        rw [hr, Option.map_some]
      simp only [h _ hm]
  rw [expand, expand, List.map_congr_left hline]

/-- Expanding again and again depends only on the bodies of the names that are met on the way. -/
theorem iterate_expand_congr {text : String}
    (h : ∀ k, ∀ name ∈ references ns ((expand ns bodies)^[k] text), bodies name = bodies' name)
    (k : Nat) : (expand ns bodies)^[k] text = (expand ns bodies')^[k] text := by
  induction k with
  | zero => rw [Function.iterate_zero_apply, Function.iterate_zero_apply]
  | succ k ih =>
    have hk := expand_congr (h k)
    rw [Function.iterate_succ_apply', Function.iterate_succ_apply', ← ih, hk]

end Expansion

namespace Catalog

open Entries Expansion

/-- What is declared for a field name in the namespace of an endpoint. -/
def declared? (catalog : Catalog) (service endpoint name : String) : Option String :=
  ((catalog.namespaces.at? service endpoint).bind fun namespaces =>
    namespaces.value? (sharedNamespace endpoint)).bind fun declarations => declarations.value? name

theorem sharedBody?_eq (catalog : Catalog) (service endpoint name : String) :
    catalog.sharedBody? service endpoint name =
      (catalog.declared? service endpoint name).bind (bodyOf? name) := rfl

/-! ### Types and declarations of a merge -/

section Merge

variable {a b : Catalog}

/-- The types of a merge are the later ones where there are any. -/
theorem typeBody?_merge {service endpoint : String} (ha : AlignedAt service endpoint a)
    (hb : AlignedAt service endpoint b) (hk : b.Keyed) (name : String) :
    (a.merge b).typeBody? service endpoint name =
      (b.typeBody? service endpoint name).or (a.typeBody? service endpoint name) := by
  have hm := merges_types.at?_merge_of_isSome hk.files ha.types hb.types
  rw [typeBody?, hm, typeBody?, typeBody?]
  cases hva : a.types.at? service endpoint with
  | none => cases b.types.at? service endpoint <;> simp [Option.merge]
  | some held =>
    cases hvb : b.types.at? service endpoint with
    | none => simp [Option.merge]
    | some types =>
      have hd : Entries.Distinct types := hk.types.at? hvb
      exact value?_putAll hd held name

/-- The declarations of a merge are the later ones where there are any. -/
theorem declared?_merge {service endpoint : String} (ha : AlignedAt service endpoint a)
    (hb : AlignedAt service endpoint b) (hk : b.Keyed) (name : String) :
    (a.merge b).declared? service endpoint name =
      (b.declared? service endpoint name).or (a.declared? service endpoint name) := by
  have hm := merges_namespaces.at?_merge_of_isSome hk.files ha.namespaces hb.namespaces
  rw [declared?, hm, declared?, declared?]
  cases hva : a.namespaces.at? service endpoint with
  | none => cases b.namespaces.at? service endpoint <;> simp [Option.merge]
  | some held =>
    cases hvb : b.namespaces.at? service endpoint with
    | none => simp [Option.merge]
    | some namespaces =>
      have hd : DistinctTables namespaces := hk.namespaces.at? hvb
      have hv := @value?_uniteWith _ uniteDeclarations _ hd.names held (sharedNamespace endpoint)
      rw [← uniteNamespaces_eq] at hv
      simp only [Option.merge, Option.bind_some, hv]
      cases hvn : Entries.value? namespaces (sharedNamespace endpoint) with
      | none => simp
      | some declarations =>
        cases Entries.value? held (sharedNamespace endpoint) with
        | none => simp [uniteDeclarations]
        | some others =>
          have hdd : Entries.Distinct declarations := hd.entries _ (mem_of_value? hvn)
          simp [uniteDeclarations, value?_putAll hdd]

end Merge

/-! ### Catalogs that were built -/

section Build

variable {options : Options} {service endpoint : String} {operations : Operations}
  {registry : Registry} {before after : Catalog}

/-- What is declared for an endpoint that was built into a catalog without it. -/
theorem declared?_of_filled
    (h : Filled options service endpoint operations registry before after)
    (hn : before.namespaces.at? service endpoint = none) (hi : registry.Idle)
    (hns : registry.ns = sharedNamespace endpoint) (name : String) :
    after.declared? service endpoint name =
      (registry.registered.value? name).map (sharedDeclaration name) := by
  rw [declared?, h.namespaces, endpointOr, hn, Option.getD_none, Option.bind_some, addShared]
  split
  · rename_i he
    rw [List.isEmpty_iff.1 he]
    rfl
  · rw [putShared, hns, value?_put, if_pos rfl, Option.bind_some,
      value?_putAll_sharedDeclaration hi.distinct]
    simp

/-- The types of an endpoint that was built into a catalog without it are those of its
operations. -/
theorem exists_of_typeBody?_filled
    (h : Filled options service endpoint operations registry before after)
    (hn : before.types.at? service endpoint = none) {name body : String}
    (hb : after.typeBody? service endpoint name = some body) :
    ∃ entry ∈ operations, (name, body) ∈ operationTypes options registry entry := by
  rw [typeBody?, h.types, endpointOr, hn, Option.getD_none, Option.bind_some] at hb
  exact List.mem_flatMap.1 (mem_ofPairs (mem_of_value? hb))

end Build

namespace BuiltFrom

variable {options options' : Options} {description description' : Description} {a b : Catalog}
  {service endpoint : String}

/-- What is declared is the declaration of a shape. -/
theorem exists_of_declared? (h : BuiltFrom options description a) {name text : String}
    (hd : a.declared? service endpoint name = some text) :
    ∃ body, text = sharedDeclaration name body := by
  cases hat : Table.at? description service endpoint with
  | none =>
    rw [declared?, ← (h.absent _ _ hat).namespaces] at hd
    cases hd
  | some operations =>
    obtain ⟨hi, hns⟩ := settleEndpoint_spec options endpoint operations
    rw [declared?_of_filled (h.filled _ _ _ hat) rfl hi hns, Option.map_eq_some_iff] at hd
    obtain ⟨body, -, rfl⟩ := hd
    exact ⟨body, rfl⟩

/-- An operation that a description does not define has no types. -/
theorem typeBody?_eq_none (h : BuiltFrom options description a) {operation : String}
    (ho : ∀ operations, Table.at? description service endpoint = some operations →
      operations.has operation = false) {name : String}
    (hn : name ∈ [Signature.inputType operation, Signature.outputType operation]) :
    a.typeBody? service endpoint name = none := by
  cases hat : Table.at? description service endpoint with
  | none =>
    rw [typeBody?, ← (h.absent _ _ hat).types]
    rfl
  | some operations =>
    rw [Option.eq_none_iff_forall_ne_some]
    intro body hb
    obtain ⟨entry, he, hm⟩ := exists_of_typeBody?_filled (h.filled _ _ _ hat) rfl hb
    -- the operation with a type of this name is the one that is missing
    have hname : operation = entry.1 := by
      simp only [operationTypes, List.mem_cons, Prod.mk.injEq, List.not_mem_nil, or_false] at hn hm
      rcases hn with rfl | rfl <;> rcases hm with ⟨hm, -⟩ | ⟨hm, -⟩
      · exact Signature.inputType_injective hm
      · exact absurd hm (Signature.inputType_ne_outputType _ _)
      · exact absurd hm.symm (Signature.inputType_ne_outputType _ _)
      · exact Signature.outputType_injective hm
    have hhas : operations.has operation = true :=
      has_eq_true_iff.2 (hname ▸ mem_keys_of_mem he)
    rw [ho operations hat] at hhas
    cases hhas

/-- The shared shapes of a merge are the later ones where there are any. -/
theorem sharedBody?_merge (ha : BuiltFrom options description a)
    (hb : BuiltFrom options' description' b) (service endpoint name : String) :
    (a.merge b).sharedBody? service endpoint name =
      (b.sharedBody? service endpoint name).or (a.sharedBody? service endpoint name) := by
  simp only [sharedBody?_eq, declared?_merge (ha.inStep.alignedAt service endpoint)
    (hb.inStep.alignedAt service endpoint) hb.keyed]
  cases hd : b.declared? service endpoint name with
  | none => rfl
  | some text =>
    obtain ⟨body, rfl⟩ := hb.exists_of_declared? hd
    simp [bodyOf?_sharedDeclaration]

end BuiltFrom

/-- **Types that a merge keeps.** Two descriptions can be built. For each endpoint of the first one,
the shared shapes that the merge has are those of the second catalog where there are any, and
otherwise those of the first one. And for each operation of the endpoint that the second description
does not define there, the types of its input and output are the same texts in the merge as in the
first catalog. They expand to the same texts, too, as long as no name that is met has two different
shapes. -/
theorem merge_keeps_types (options options' : Options) {description description' : Description}
    (hd : description.Keyed) (hd' : description'.Keyed) :
    ∃ a b, (build options description empty).outcome = .ok a ∧
      (build options' description' empty).outcome = .ok b ∧
      ∀ service endpoint operations, Table.at? description service endpoint = some operations →
        (∀ name, (a.merge b).sharedBody? service endpoint name =
          (b.sharedBody? service endpoint name).or (a.sharedBody? service endpoint name)) ∧
        ∀ entry ∈ operations,
          (∀ others, Table.at? description' service endpoint = some others →
            others.has entry.1 = false) →
          ∀ type ∈ [Signature.inputType entry.1, Signature.outputType entry.1], ∃ text,
            a.typeBody? service endpoint type = some text ∧
            (a.merge b).typeBody? service endpoint type = some text ∧
            ((∀ k, ∀ name ∈ references (sharedNamespace endpoint)
                ((expand (sharedNamespace endpoint) (a.sharedBody? service endpoint))^[k] text),
                b.sharedBody? service endpoint name = none ∨
                  b.sharedBody? service endpoint name = a.sharedBody? service endpoint name) →
              ∀ k, (expand (sharedNamespace endpoint)
                  ((a.merge b).sharedBody? service endpoint))^[k] text =
                (expand (sharedNamespace endpoint) (a.sharedBody? service endpoint))^[k] text) := by
  obtain ⟨a, hba, ha⟩ := exists_builtFrom options hd
  obtain ⟨b, hbb, hb⟩ := exists_builtFrom options' hd'
  refine ⟨a, b, hba, hbb, fun service endpoint operations hat => ?_⟩
  have hshared := ha.sharedBody?_merge hb service endpoint
  refine ⟨hshared, fun entry he hnew type ht => ?_⟩
  -- the description has one operation of this name, and the catalog its types
  obtain ⟨endpoints, hs, hv⟩ := Option.bind_eq_some_iff.1 hat
  have hem := emitted_of_build hd (mem_of_value? hs) (mem_of_value? hv) hba
  have hex : ∃ text, (type, text) ∈ operationTypes options
      (settleEndpoint options endpoint operations).registry entry := by
    simp only [List.mem_cons, List.not_mem_nil, or_false] at ht
    rcases ht with rfl | rfl
    · exact ⟨_, List.mem_cons_self⟩
    · exact ⟨_, List.mem_cons_of_mem _ List.mem_cons_self⟩
  obtain ⟨text, hm⟩ := hex
  have hbody : a.typeBody? service endpoint type = some text := hem.typeBody entry he _ hm
  refine ⟨text, hbody, ?_, fun hsame k => ?_⟩
  · rw [typeBody?_merge (ha.inStep.alignedAt service endpoint)
      (hb.inStep.alignedAt service endpoint) hb.keyed, hb.typeBody?_eq_none hnew ht, hbody]
    rfl
  · refine (iterate_expand_congr (fun k name hn => ?_) k).symm
    rw [hshared]
    rcases hsame k name hn with hnone | heq
    · rw [hnone, Option.none_or]
    · rw [heq]
      cases a.sharedBody? service endpoint name <;> rfl

/-- A directory in which one finds addresses with streets. -/
def streets : Description :=
  [("Directory", [("Book",
    [("Find", ⟨[], [("address", .branch [("street", .leaf "street|xs:string")])]⟩)])])]

/-- A directory in which one moves to an address with a street. -/
def moves : Description :=
  [("Directory", [("Book",
    [("Move", ⟨[("address", .branch [("street", .leaf "street|xs:string")])], []⟩)])])]

/-- A directory in which one moves to an address with a city. -/
def cities : Description :=
  [("Directory", [("Book",
    [("Move", ⟨[("address", .branch [("city", .leaf "city|xs:string")])], []⟩)])])]

/-- Both directories share addresses with streets. -/
theorem merge_keeps_types_streets :
    ∃ a b text, (build {} streets empty).outcome = .ok a ∧
      (build {} moves empty).outcome = .ok b ∧
      (a.merge b).typeBody? "Directory" "Book" "IFindOutput" = some text ∧
      ∀ k, (expand "BookTypes" ((a.merge b).sharedBody? "Directory" "Book"))^[k] text =
        (expand "BookTypes" (a.sharedBody? "Directory" "Book"))^[k] text := by
  have hd : streets.Keyed := by
    constructor <;> simp [streets, Entries.Distinct]
  have hd' : moves.Keyed := by
    constructor <;> simp [moves, Entries.Distinct]
  obtain ⟨a, b, ha, hb, h⟩ := merge_keeps_types {} {} hd hd'
  obtain ⟨text, -, ht, hk⟩ := (h "Directory" "Book" _ rfl).2 _ List.mem_cons_self
    (fun others ho => by cases ho; rfl) _ (List.mem_cons_of_mem _ List.mem_cons_self)
  have hn : (build {} moves empty).outcome.toOption.map (·.namespaces.at? "Directory" "Book") =
      (build {} streets empty).outcome.toOption.map (·.namespaces.at? "Directory" "Book") := by
    decide +kernel
  rw [ha, hb] at hn
  have hat : b.namespaces.at? "Directory" "Book" = a.namespaces.at? "Directory" "Book" :=
    Option.some.inj hn
  refine ⟨a, b, text, ha, hb, ht, hk fun _ name _ => .inr ?_⟩
  rw [sharedBody?, hat, sharedBody?]

/-- **A merge can change what a type means.** The addresses that are found have streets, and after
the merge they have cities. -/
theorem merge_changes_meaning :
    ∃ a b text, (build {} streets empty).outcome = .ok a ∧
      (build {} cities empty).outcome = .ok b ∧
      (∀ others, Table.at? cities "Directory" "Book" = some others → others.has "Find" = false) ∧
      a.typeBody? "Directory" "Book" "IFindOutput" = some text ∧
      (a.merge b).typeBody? "Directory" "Book" "IFindOutput" = some text ∧
      references "BookTypes" (expand "BookTypes" (a.sharedBody? "Directory" "Book") text) = [] ∧
      references "BookTypes"
        (expand "BookTypes" ((a.merge b).sharedBody? "Directory" "Book") text) = [] ∧
      expand "BookTypes" (a.sharedBody? "Directory" "Book") text ≠
        expand "BookTypes" ((a.merge b).sharedBody? "Directory" "Book") text := by
  obtain ⟨a, ha, -⟩ := inStep_empty.build {} streets
  obtain ⟨b, hb, -⟩ := inStep_empty.build {} cities
  have h : (do
      let a ← (build {} streets empty).outcome.toOption
      let b ← (build {} cities empty).outcome.toOption
      some (decide (∃ text ∈ a.typeBody? "Directory" "Book" "IFindOutput",
        (a.merge b).typeBody? "Directory" "Book" "IFindOutput" = some text ∧
        references "BookTypes" (expand "BookTypes" (a.sharedBody? "Directory" "Book") text) = [] ∧
        references "BookTypes"
          (expand "BookTypes" ((a.merge b).sharedBody? "Directory" "Book") text) = [] ∧
        expand "BookTypes" (a.sharedBody? "Directory" "Book") text ≠
          expand "BookTypes" ((a.merge b).sharedBody? "Directory" "Book") text))) =
      some true := by
    decide +kernel
  rw [ha, hb] at h
  obtain ⟨text, ht, h⟩ := of_decide_eq_true (Option.some.inj h)
  refine ⟨a, b, text, ha, hb, fun others ho => ?_, ht, h⟩
  cases ho
  rfl

end Catalog

end SoapTypes
