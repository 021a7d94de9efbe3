import SoapTypes.Proofs.MergeAssociative
import SoapTypes.Proofs.ReachableCatalogs

/-!
# Building into a catalog

Instead of merging the catalogs of two descriptions one can build the second description into the
catalog of the first. A build sets entry by entry what a merge unites table by table, and both come
to the same, with the order of the files and of everything in them.

* `Catalog.MergedInto` relates a catalog that is built into with the one that is built apart;
  `MergedInto.buildEndpoint` is a step of both builds and `MergedInto.build` the whole of them.
* `Catalog.buildEndpoint_eq_self`: an endpoint that holds what is built changes nothing.
* `Catalog.build_eq_merge` is the result.
-/

namespace SoapTypes

namespace Entries

variable {α : Type}

/-! ### Pairs put into a union -/

/-- Pairs may be put into a union or into what is united last. -/
theorem putAll_putAll {a b : Entries α} (ha : a.Distinct) (hb : b.Distinct)
    (more : List (String × α)) : (a.putAll b).putAll more = a.putAll (b.putAll more) := by
  induction more generalizing b with
  | nil => rfl
  | cons pair more ih =>
    obtain ⟨key, value⟩ := pair
    have hone : Entries.Distinct [(key, value)] := by simp [Distinct]
    calc (a.putAll b).putAll ((key, value) :: more)
        = ((a.putAll b).putAll [(key, value)]).putAll more := rfl
      _ = (a.putAll (b.putAll [(key, value)])).putAll more := by rw [putAll_assoc ha hb hone]
      _ = a.putAll ((b.putAll [(key, value)]).putAll more) := ih (distinct_putAll hb _)

theorem putAll_ofPairs {a : Entries α} (ha : a.Distinct) (pairs : List (String × α)) :
    a.putAll (ofPairs pairs) = a.putAll pairs := by
  have hnil : Distinct ([] : Entries α) := List.nodup_nil
  exact (putAll_putAll ha hnil pairs).symm

theorem addNew_eq_self {names more : List String} (h : ∀ name ∈ more, name ∈ names) :
    addNew names more = names := by
  induction more with
  | nil => rfl
  | cons name more ih =>
    obtain ⟨hname, hmore⟩ := List.forall_mem_cons.1 h
    have hstep : addNew names (name :: more) = addNew names more :=
      congrArg (addNew · more) (if_pos (List.contains_iff_mem.2 hname))
    rw [hstep, ih hmore]

theorem putAll_self {a : Entries α} (ha : a.Distinct) : a.putAll a = a := by
  refine eq_of_keys_eq (distinct_putAll ha a) ?_ fun key => ?_
  · rw [putAll_eq_uniteWith, keys_uniteWith, addNew_eq_self fun _ h => h]
  · rw [value?_putAll ha, Option.or_self]

/-- Pairs that are put once more change nothing, though some of them may have the same name. -/
theorem putAll_putAll_self (pairs : List (String × α)) :
    (ofPairs pairs).putAll pairs = ofPairs pairs := by
  have hd := distinct_ofPairs pairs
  rw [← putAll_ofPairs hd, putAll_self hd]

end Entries

namespace Table

open Entries Catalog

variable {α : Type}

/-! ### One endpoint of a table -/

theorem set_eq_self {table : Table α} {service endpoint : String} {value : α}
    (h : table.at? service endpoint = some value) : table.set service endpoint value = table := by
  obtain ⟨endpoints, hs, he⟩ := Option.bind_eq_some_iff.1 h
  rw [set, hs, Option.getD_some, put_eq_self he, put_eq_self hs]

theorem set_put_nil {table : Table α} {service : String} (h : Entries.has table service = false)
    (endpoint : String) (value : α) :
    Table.set (Entries.put table service [] : Table α) service endpoint value =
      table.set service endpoint value := by
  have hv : Entries.value? table service = none := by simpa [has] using h
  rw [set, set, value?_put, if_pos rfl, put_put, hv, Option.getD_some, Option.getD_none]

/-- An endpoint that the replacement gives its value again changes nothing. -/
theorem update?_eq_self {table : Table α} {service endpoint : String} {value : α}
    (h : table.at? service endpoint = some value) {f : α → α} (hf : f value = value) :
    table.update? service endpoint f = .ok table :=
  update?_eq_ok.2 ⟨value, h, by rw [hf, set_eq_self h]⟩

/-- A file that is set is united with the others. -/
theorem set_eq_uniteNamespaces (table : Table String) (service endpoint file : String) :
    table.set service endpoint file = uniteNamespaces table [(service, [(endpoint, file)])] := by
  rw [uniteNamespaces_eq, uniteWith_cons, alter, set]
  cases Entries.value? table service <;> rfl

/-- A file may be set in a union or in what is united last. -/
theorem uniteNamespaces_set {a b : Table String} (ha : DistinctTables a) (hb : DistinctTables b)
    (service endpoint file : String) :
    uniteNamespaces a (b.set service endpoint file) =
      Table.set (uniteNamespaces a b) service endpoint file := by
  have hone : DistinctTables [(service, [(endpoint, file)])] := by
    simp [distinctTables_iff, Distinct]
  rw [set_eq_uniteNamespaces, set_eq_uniteNamespaces, uniteNamespaces_assoc ha hb hone]

end Table

namespace Catalog

open Entries

/-! ### Shared shapes put into a union -/

/-- The declarations of the shared shapes of a registry, in their namespace. -/
def sharedNamespaces (registry : Registry) : Namespaces :=
  [(registry.ns, ofPairs (registry.registered.map fun entry =>
    (entry.1, sharedDeclaration entry.1 entry.2)))]

theorem distinctTables_sharedNamespaces (registry : Registry) :
    DistinctTables (sharedNamespaces registry) where
  names := by simp [sharedNamespaces, Distinct]
  entries := by
    intro entry he
    obtain rfl := List.mem_singleton.1 he
    exact distinct_ofPairs _

theorem putShared_eq_uniteNamespaces (registry : Registry) {namespaces : Namespaces}
    (h : DistinctTables namespaces) :
    putShared registry namespaces = uniteNamespaces namespaces (sharedNamespaces registry) := by
  rw [uniteNamespaces_eq, sharedNamespaces, uniteWith_cons, alter, putShared]
  cases hv : Entries.value? namespaces registry.ns with
  | none => rfl
  | some declarations =>
    rw [Option.getD_some, uniteDeclarations, putAll_ofPairs (h.entries _ (mem_of_value? hv))]
    rfl

/-- Shared shapes may be put into a union or into what is united last. -/
theorem addShared_uniteNamespaces (registry : Registry) {a b : Namespaces} (ha : DistinctTables a)
    (hb : DistinctTables b) :
    addShared registry (uniteNamespaces a b) = uniteNamespaces a (addShared registry b) := by
  unfold addShared
  split
  · rfl
  · rw [putShared_eq_uniteNamespaces registry (distinctTables_uniteNamespaces ha hb),
      putShared_eq_uniteNamespaces registry hb,
      uniteNamespaces_assoc ha hb (distinctTables_sharedNamespaces registry)]

/-- Shared shapes that are put once more change nothing. -/
theorem addShared_addShared_nil (registry : Registry) :
    addShared registry (addShared registry []) = addShared registry [] := by
  unfold addShared
  split
  · rfl
  · have hfirst : putShared registry [] = sharedNamespaces registry := rfl
    have hv : Entries.value? (sharedNamespaces registry) registry.ns =
        some (ofPairs (registry.registered.map fun entry =>
          (entry.1, sharedDeclaration entry.1 entry.2))) := if_pos rfl
    rw [hfirst, putShared, hv, Option.getD_some, putAll_putAll_self, put_eq_self hv]

/-! ### What a build keeps -/

/-- Every file is that of its endpoint. -/
def NamedFiles (catalog : Catalog) : Prop :=
  ∀ service endpoint file, catalog.files.at? service endpoint = some file →
    file = endpointFile service endpoint

/-- What holds of a catalog that descriptions were built into, one after the other, from nothing. -/
structure WellBuilt (catalog : Catalog) : Prop where
  inStep : catalog.InStep
  keyed : catalog.Keyed
  namedFiles : catalog.NamedFiles

theorem wellBuilt_empty : empty.WellBuilt := ⟨inStep_empty, keyed_empty, fun _ _ _ h => by cases h⟩

section Endpoint

variable {options : Options} {catalog next : Catalog} {service endpoint : String}
  {operations : Operations}

theorem InStep.set_files_withService (h : catalog.InStep) (service endpoint file : String) :
    (catalog.withService service).files.set service endpoint file =
      catalog.files.set service endpoint file := by
  unfold Catalog.withService
  split
  · rfl
  · rename_i hs
    exact Table.set_put_nil (h.files.has service ▸ by simpa using hs) endpoint file

theorem warnings_withService (catalog : Catalog) (service : String) :
    (catalog.withService service).warnings = catalog.warnings := by
  unfold withService
  split <;> rfl

/-- Room for an endpoint: its file is set, and no warning comes. -/
theorem WellBuilt.files_ensureEndpoint (h : catalog.WellBuilt)
    (he : catalog.ensureEndpoint service endpoint (endpointFile service endpoint) = .ok next) :
    next.files = catalog.files.set service endpoint (endpointFile service endpoint) ∧
      next.warnings = catalog.warnings := by
  have hset := h.inStep.set_files_withService service endpoint (endpointFile service endpoint)
  have hwarnings := warnings_withService catalog service
  rw [ensureEndpoint_eq] at he
  split at he
  · -- the endpoint is there, and has the file that it would get
    rename_i hsome
    cases he
    have hw := h.inStep.withService service
    obtain ⟨file, hfile⟩ :=
      Option.isSome_iff_exists.1 ((hw.files.at? service endpoint).symm.trans hsome)
    have hname := (h.inStep.asBefore_withService service service endpoint).files.trans hfile
    obtain rfl := h.namedFiles service endpoint file hname
    exact ⟨(Table.set_eq_self hfile).symm.trans hset, hwarnings⟩
  · obtain ⟨types, -, he⟩ := exists_of_bind_eq_ok he
    obtain ⟨methods, -, he⟩ := exists_of_bind_eq_ok he
    obtain ⟨files, hf, he⟩ := exists_of_bind_eq_ok he
    obtain ⟨namespaces, -, he⟩ := exists_of_bind_eq_ok he
    cases he
    exact ⟨(Table.set?_eq_ok.1 hf).2.trans hset, hwarnings⟩

/-- Building an endpoint sets its file, and no warning comes. -/
theorem WellBuilt.files_buildEndpoint (h : catalog.WellBuilt)
    (hb : (Catalog.buildEndpoint options service endpoint operations catalog).outcome = .ok next) :
    next.files = catalog.files.set service endpoint (endpointFile service endpoint) ∧
      next.warnings = catalog.warnings := by
  rw [outcome_buildEndpoint] at hb
  obtain ⟨middle, he, hp⟩ := exists_of_bind_eq_ok hb
  rw [putEndpoint_eq] at hp
  obtain ⟨namespaces, -, hp⟩ := exists_of_bind_eq_ok hp
  obtain ⟨types, -, hp⟩ := exists_of_bind_eq_ok hp
  obtain ⟨methods, -, hp⟩ := exists_of_bind_eq_ok hp
  cases hp
  show middle.files = _ ∧ middle.warnings = _
  exact h.files_ensureEndpoint he

theorem WellBuilt.buildEndpoint (h : catalog.WellBuilt)
    (hb : (Catalog.buildEndpoint options service endpoint operations catalog).outcome = .ok next) :
    next.WellBuilt where
  inStep := (h.inStep.inStepFor.of_buildEndpoint hb).inStep
  keyed := h.keyed.buildEndpoint hb
  namedFiles := by
    intro service' endpoint' file hf
    rw [(h.files_buildEndpoint hb).1, Table.at?_set] at hf
    split at hf
    · rename_i heq
      obtain ⟨rfl, rfl⟩ := heq
      exact (Option.some.inj hf).symm
    · exact h.namedFiles service' endpoint' file hf

end Endpoint

/-! ### A merge while its second catalog changes -/

section Merge

variable {service endpoint : String} {a b b' : Catalog}

/-- An endpoint that stays as it is in the second catalog stays as it is in the merge. -/
theorem AsBefore.merge (h : AsBefore service endpoint b b') (ha : AlignedAt service endpoint a)
    (hb : AlignedAt service endpoint b) (hf : DistinctTables b.files)
    (hf' : DistinctTables b'.files) : AsBefore service endpoint (a.merge b) (a.merge b') := by
  have hb' := hb.of_asBefore h
  refine ⟨⟨?_, ?_⟩, ?_, ?_⟩
  · rw [merges_types.at?_merge_of_isSome hf ha.types hb.types,
      merges_types.at?_merge_of_isSome hf' ha.types hb'.types, h.types]
  · rw [merges_namespaces.at?_merge_of_isSome hf ha.namespaces hb.namespaces,
      merges_namespaces.at?_merge_of_isSome hf' ha.namespaces hb'.namespaces, h.namespaces]
  · rw [merges_methods.at?_merge_of_isSome hf ha.methods hb.methods,
      merges_methods.at?_merge_of_isSome hf' ha.methods hb'.methods, h.methods]
  · rw [at?_files_merge hf, at?_files_merge hf', h.files]

variable {β : Type} {table : Catalog → Table (Entries β)}
  {unite : Entries β → Entries β → Entries β} {inner : Entries β → Prop}

/-- A change of the entries of an endpoint may be made in a merge or in its second catalog, if it
may be made in a union or in what is united last. -/
theorem Merges.at?_merge_change (h : Merges table unite inner) (change : Entries β → Entries β)
    (hnil : ∀ held, unite held [] = held)
    (hchange : ∀ held more, inner held → inner more →
      change (unite held more) = unite held (change more))
    (ha : Table.Keyed inner (table a)) (hb : Table.Keyed inner (table b))
    (hf : DistinctTables b.files) (hf' : DistinctTables b'.files)
    (hat : ((table a).at? service endpoint).isSome = (a.files.at? service endpoint).isSome)
    (hbt : ((table b).at? service endpoint).isSome = (b.files.at? service endpoint).isSome)
    (hbt' : ((table b').at? service endpoint).isSome = (b'.files.at? service endpoint).isSome)
    (hb' : (table b').at? service endpoint =
      some (change (endpointOr (table b) service endpoint))) :
    (table (a.merge b')).at? service endpoint =
      some (change (endpointOr (table (a.merge b)) service endpoint)) := by
  rw [h.at?_merge_of_isSome hf' hat hbt', hb', endpointOr, endpointOr,
    h.at?_merge_of_isSome hf hat hbt]
  cases hva : (table a).at? service endpoint with
  | none => rw [Option.merge_none_left, Option.merge_none_left]
  | some held =>
    have hheld := ha.at? hva
    cases hvb : (table b).at? service endpoint with
    | none =>
      -- the second catalog has nothing that the change could be made in
      have hlaw := hchange held [] hheld h.nil
      rw [hnil] at hlaw
      rw [Option.merge_none_right, Option.getD_some, Option.getD_none, hlaw]
      rfl
    | some more => exact congrArg some (hchange held more hheld (hb.at? hvb)).symm

variable {options : Options} {operations : Operations} {registry : Registry}

/-- An endpoint that is filled in the second catalog is filled in the merge. -/
theorem Filled.merge (h : Filled options service endpoint operations registry b b')
    (ha : a.WellBuilt) (hb : b.WellBuilt) (hb' : b'.WellBuilt) :
    Filled options service endpoint operations registry (a.merge b) (a.merge b') := by
  have hla := ha.inStep.alignedAt service endpoint
  have hlb := hb.inStep.alignedAt service endpoint
  have hlb' := hb'.inStep.alignedAt service endpoint
  have hf := hb.keyed.files
  have hf' := hb'.keyed.files
  refine ⟨?_, ?_, ?_, ?_⟩
  · rw [at?_files_merge hf, at?_files_merge hf', h.files, Option.some_or, Option.some.injEq]
    cases b.files.at? service endpoint with
    | some file => rfl
    | none =>
      -- a file of the first catalog is the one that the second one gets
      cases hva : a.files.at? service endpoint with
      | none => rfl
      | some file => exact (ha.namedFiles service endpoint file hva).symm
  · exact merges_methods.at?_merge_change (fun held => held.putAll _) putAll_nil
      (fun held more hh hm => putAll_putAll hh hm _) ha.keyed.methods hb.keyed.methods hf hf'
      hla.methods hlb.methods hlb'.methods h.methods
  · exact merges_types.at?_merge_change (fun held => held.putAll _) putAll_nil
      (fun held more hh hm => putAll_putAll hh hm _) ha.keyed.types hb.keyed.types hf hf'
      hla.types hlb.types hlb'.types h.types
  · exact merges_namespaces.at?_merge_change (addShared registry) (fun _ => rfl)
      (fun held more hh hm => addShared_uniteNamespaces registry hh hm) ha.keyed.namespaces
      hb.keyed.namespaces hf hf' hla.namespaces hlb.namespaces hlb'.namespaces h.namespaces

/-- What an endpoint holds after it was filled depends on what it held before. -/
theorem Filled.asBefore {before : Catalog}
    (h : Filled options service endpoint operations registry before a)
    (h' : Filled options service endpoint operations registry before b) :
    AsBefore service endpoint a b where
  files := h.files.trans h'.files.symm
  methods := h.methods.trans h'.methods.symm
  types := h.types.trans h'.types.symm
  namespaces := h.namespaces.trans h'.namespaces.symm

/-- Catalogs in step hold the same if they have the same files and the same for each endpoint. -/
theorem InStep.sameContents (ha : a.InStep) (hb : b.InStep) (hf : a.files = b.files)
    (he : ∀ service endpoint, AsBefore service endpoint a b) (hw : a.warnings = b.warnings) :
    SameContents a b := by
  have htypes : ∀ service, a.types.has service = b.types.has service := fun service => by
    rw [ha.files.has, hf, hb.files.has]
  -- the other tables have the services of the types
  have hmethods : ∀ service, a.methods.has service = b.methods.has service := fun service => by
    rw [← ha.methods.has, htypes, hb.methods.has]
  have hnamespaces : ∀ service, a.namespaces.has service = b.namespaces.has service :=
    fun service => by rw [← ha.namespaces.has, htypes, hb.namespaces.has]
  refine ⟨hf, ?_, ?_, ?_, hw⟩
  · exact sameTables_of_at? (fun service => by rw [hmethods]) fun service endpoint =>
      (he service endpoint).methods
  · exact sameTables_of_at? (fun service => by rw [htypes]) fun service endpoint =>
      (he service endpoint).types
  · exact sameTables_of_at? (fun service => by rw [hnamespaces]) fun service endpoint =>
      (he service endpoint).namespaces

end Merge

/-! ### Two builds side by side -/

/-- A catalog `into` that builds made of `a`, and a catalog `apart` that the same builds made of
nothing: the first is the merge of `a` and the second. -/
structure MergedInto (a into apart : Catalog) : Prop where
  wellBuilt : into.WellBuilt
  wellBuilt_apart : apart.WellBuilt
  files : into.files = (a.merge apart).files
  entries (service endpoint : String) : AsBefore service endpoint into (a.merge apart)
  warnings : into.warnings = (a.merge apart).warnings

section Build

variable {options : Options} {a into apart : Catalog}

theorem mergedInto_empty (ha : a.WellBuilt) : MergedInto a a empty where
  wellBuilt := ha
  wellBuilt_apart := wellBuilt_empty
  files := rfl
  entries _ _ := ⟨⟨rfl, rfl⟩, rfl, rfl⟩
  warnings := (List.append_nil a.warnings).symm

/-- A step of the two builds keeps them the same. -/
theorem MergedInto.buildEndpoint (h : MergedInto a into apart) (ha : a.WellBuilt)
    (options : Options) (service endpoint : String) (operations : Operations) :
    ∃ into' apart',
      (Catalog.buildEndpoint options service endpoint operations into).outcome = .ok into' ∧
      (Catalog.buildEndpoint options service endpoint operations apart).outcome = .ok apart' ∧
      MergedInto a into' apart' := by
  obtain ⟨into', hi, -, hfi, hoi⟩ :=
    h.wellBuilt.inStep.buildEndpoint_tables options service endpoint operations
  obtain ⟨apart', hp, -, hfp, hop⟩ :=
    h.wellBuilt_apart.inStep.buildEndpoint_tables options service endpoint operations
  obtain ⟨hfilesInto, hwarningsInto⟩ := h.wellBuilt.files_buildEndpoint hi
  obtain ⟨hfilesApart, hwarningsApart⟩ := h.wellBuilt_apart.files_buildEndpoint hp
  have hinto := h.wellBuilt.buildEndpoint hi
  have hapart := h.wellBuilt_apart.buildEndpoint hp
  have hfiles : into'.files = (a.merge apart').files := by
    rw [hfilesInto, h.files, files_merge, files_merge, hfilesApart,
      Table.uniteNamespaces_set ha.keyed.files h.wellBuilt_apart.keyed.files]
  refine ⟨into', apart', hi, hp, hinto, hapart, hfiles, fun service' endpoint' => ?_, ?_⟩
  · have hold := h.entries service' endpoint'
    by_cases heq : service = service' ∧ endpoint = endpoint'
    · obtain ⟨rfl, rfl⟩ := heq
      exact (hfi.of_asBefore_left hold.symm).asBefore (hfp.merge ha h.wellBuilt_apart hapart)
    · -- another endpoint changes in neither catalog
      exact (hoi service' endpoint' heq).symm.trans (hold.trans
        ((hop service' endpoint' heq).merge (ha.inStep.alignedAt service' endpoint')
          (h.wellBuilt_apart.inStep.alignedAt service' endpoint') h.wellBuilt_apart.keyed.files
          hapart.keyed.files))
  · rw [hwarningsInto, h.warnings, warnings_merge, warnings_merge, hwarningsApart]

theorem MergedInto.buildEndpoints (h : MergedInto a into apart) (ha : a.WellBuilt)
    (options : Options) (service : String) (endpoints : List (String × Operations)) :
    ∃ into' apart', (Catalog.buildEndpoints options service endpoints into).outcome = .ok into' ∧
      (Catalog.buildEndpoints options service endpoints apart).outcome = .ok apart' ∧
      MergedInto a into' apart' := by
  induction endpoints generalizing into apart with
  | nil => exact ⟨into, apart, rfl, rfl, h⟩
  | cons entry endpoints ih =>
    obtain ⟨endpoint, operations⟩ := entry
    obtain ⟨into', apart', hi, hp, h'⟩ := h.buildEndpoint ha options service endpoint operations
    rw [outcome_buildEndpoints_cons, outcome_buildEndpoints_cons, hi, hp]
    exact ih h'

/-- The two builds are the same at the end. -/
theorem MergedInto.build (h : MergedInto a into apart) (ha : a.WellBuilt) (options : Options)
    (description : Description) :
    ∃ into' apart', (Catalog.build options description into).outcome = .ok into' ∧
      (Catalog.build options description apart).outcome = .ok apart' ∧
      MergedInto a into' apart' := by
  induction description generalizing into apart with
  | nil => exact ⟨into, apart, rfl, rfl, h⟩
  | cons entry description ih =>
    obtain ⟨service, endpoints⟩ := entry
    obtain ⟨into', apart', hi, hp, h'⟩ := h.buildEndpoints ha options service endpoints
    rw [outcome_build_cons, outcome_build_cons, hi, hp]
    exact ih h'

/-- A catalog that is built into holds what a merge holds. -/
theorem MergedInto.sameContents (h : MergedInto a into apart) (ha : a.WellBuilt) :
    SameContents into (a.merge apart) := by
  have hm := ha.inStep.merge h.wellBuilt_apart.inStep h.wellBuilt_apart.keyed.files
  exact h.wellBuilt.inStep.sameContents hm h.files h.entries h.warnings

end Build

/-! ### A build that changes nothing -/

section Again

variable {options : Options} {catalog : Catalog} {description : Description}

/-- An endpoint that holds what is built, and nothing else, is not changed by its build. -/
theorem buildEndpoint_eq_self {service endpoint : String} {operations : Operations}
    (h : Filled options service endpoint operations
      (settleEndpoint options endpoint operations).registry empty catalog) :
    (buildEndpoint options service endpoint operations catalog).outcome = .ok catalog := by
  have hsome : (catalog.types.at? service endpoint).isSome = true := by rw [h.types]; rfl
  have hroom : catalog.ensureEndpoint service endpoint (endpointFile service endpoint) =
      .ok catalog := by
    have hs : catalog.withService service = catalog := if_pos (Table.has_of_at? hsome)
    rw [ensureEndpoint_eq, hs, if_pos hsome]
  rw [outcome_buildEndpoint, hroom]
  generalize (settleEndpoint options endpoint operations).registry = registry at h
  have hnamespaces : (if registry.registered.isEmpty then .ok catalog.namespaces
      else catalog.namespaces.update? service endpoint (putShared registry)) =
        .ok catalog.namespaces := by
    split
    · rfl
    · rename_i he
      have hadd : ∀ namespaces, putShared registry namespaces = addShared registry namespaces :=
        fun _ => (if_neg he).symm
      exact Table.update?_eq_self h.namespaces ((hadd _).trans (addShared_addShared_nil registry))
  have htypes : (catalog.types.update? service endpoint fun types =>
      types.putAll (operations.flatMap (operationTypes options registry))) = .ok catalog.types :=
    Table.update?_eq_self h.types (putAll_putAll_self _)
  have hmethods : (catalog.methods.update? service endpoint fun methods =>
      methods.putAll (operations.flatMap operationMethods)) = .ok catalog.methods :=
    Table.update?_eq_self h.methods (putAll_putAll_self _)
  show catalog.putEndpoint options service endpoint operations registry = .ok catalog
  rw [putEndpoint_eq, hnamespaces, htypes, hmethods]
  rfl

theorem buildEndpoints_eq_self {service : String} {endpoints : List (String × Operations)}
    (h : ∀ entry ∈ endpoints, Filled options service entry.1 entry.2
      (settleEndpoint options entry.1 entry.2).registry empty catalog) :
    (buildEndpoints options service endpoints catalog).outcome = .ok catalog := by
  induction endpoints with
  | nil => rfl
  | cons entry endpoints ih =>
    obtain ⟨endpoint, operations⟩ := entry
    obtain ⟨hfirst, h⟩ := List.forall_mem_cons.1 h
    rw [outcome_buildEndpoints_cons, buildEndpoint_eq_self hfirst]
    exact ih h

theorem build_eq_self
    (h : ∀ entry ∈ description, ∀ entry' ∈ entry.2, Filled options entry.1 entry'.1 entry'.2
      (settleEndpoint options entry'.1 entry'.2).registry empty catalog) :
    (build options description catalog).outcome = .ok catalog := by
  induction description with
  | nil => rfl
  | cons entry description ih =>
    obtain ⟨service, endpoints⟩ := entry
    obtain ⟨hfirst, h⟩ := List.forall_mem_cons.1 h
    rw [outcome_build_cons, buildEndpoints_eq_self hfirst]
    exact ih h

theorem BuiltFrom.wellBuilt (h : BuiltFrom options description catalog) : catalog.WellBuilt where
  inStep := h.inStep
  keyed := h.keyed
  namedFiles := by
    intro service endpoint file hf
    cases hat : Table.at? description service endpoint with
    | none =>
      rw [← (h.absent service endpoint hat).files] at hf
      cases hf
    | some operations =>
      rw [(h.filled service endpoint operations hat).files] at hf
      exact (Option.some.inj hf).symm

/-- Building a description into its own catalog changes nothing. -/
theorem BuiltFrom.build_eq_self (h : BuiltFrom options description catalog)
    (hd : description.Keyed) : (build options description catalog).outcome = .ok catalog := by
  exact Catalog.build_eq_self fun entry he entry' he' => h.filled _ _ _ (hd.at?_of_mem he he')

end Again

/-- **Building into a catalog is merging.** A description that is built into the catalog of another
one, with whatever options, gives the merge of the two catalogs that are built apart: both are equal
as catalogs, have the same warnings, and give the same files with the same blocks in the same order.
A description that is built into its own catalog leaves it unchanged. -/
theorem build_eq_merge (options options' : Options) {description : Description}
    (hd : description.Keyed) (description' : Description) :
    ∃ a b into, (build options description empty).outcome = .ok a ∧
      (build options' description' empty).outcome = .ok b ∧
      (build options' description' a).outcome = .ok into ∧
      into.same (a.merge b) = true ∧ into.warnings = (a.merge b).warnings ∧
      into.outputs = (a.merge b).outputs ∧
      (build options description a).outcome = .ok a := by
  obtain ⟨a, ha, hfrom⟩ := exists_builtFrom options hd
  have hwell := hfrom.wellBuilt
  obtain ⟨into, b, hi, hb, hm⟩ := (mergedInto_empty hwell).build hwell options' description'
  have hsame := hm.sameContents hwell
  exact ⟨a, b, into, ha, hb, hi,
    hsame.same hm.wellBuilt.keyed (hwell.keyed.merge hm.wellBuilt_apart.keyed), hsame.warnings,
    hsame.outputs, hfrom.build_eq_self hd⟩

/-- A directory in which one finds addresses, with a method that has the name of another one's
promise. -/
def finds : Description :=
  [("Directory", [("Book",
    [("Find", ⟨[], [("address", .branch [("street", .leaf "street|xs:string")])]⟩),
      ("FindAsync", ⟨[("address", .branch [("street", .leaf "street|xs:string")])], []⟩)])])]

/-- A stock, and the directory with another endpoint and addresses of another shape. -/
def visits : Description :=
  [("Stock", [("Shelf", [("Count", ⟨[], []⟩)])]),
    ("Directory", [("Map", [("Find", ⟨[], []⟩)]), ("Book",
      [("Visit", ⟨[("address", .branch [("city", .leaf "city|xs:string")])], []⟩),
        ("Find", ⟨[], []⟩)])])]

/-- The two have an endpoint in common, with a method and a shared shape that both declare. -/
theorem build_eq_merge_visits :
    ∃ a b into, (build {} finds empty).outcome = .ok a ∧
      (build {} visits empty).outcome = .ok b ∧ (build {} visits a).outcome = .ok into ∧
      into.same (a.merge b) = true ∧ into.warnings = (a.merge b).warnings ∧
      into.outputs = (a.merge b).outputs ∧ (build {} finds a).outcome = .ok a :=
  build_eq_merge {} {} (by decide) visits

end Catalog

end SoapTypes
