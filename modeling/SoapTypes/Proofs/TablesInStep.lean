import SoapTypes.Proofs.CatalogBuild

/-!
# Tables in step

Whoever makes room for a service or an endpoint in a catalog makes room in all four tables. So
tables that have the same services and endpoints keep them through a build, and a build into such
tables succeeds. Not every catalog has four such tables: what is asked of all services here is that
the files go with the types and the namespaces with the methods.

* `Table.InStepAt` compares two tables at one service, `Table.InStep` at all of them.
* `Catalog.InStepFor.of_build`: a build that succeeds keeps tables in step.
* `Catalog.InStepFor.exists_build`: a build succeeds where the four tables agree on the services of
  the description; `Catalog.InStep.build` is the case of four tables that agree on all services.
-/

namespace SoapTypes

namespace Table

variable {α β γ : Type}

/-! ### Two tables -/

/-- Two tables agree on a service: if one has it so does the other, with the same endpoints. -/
structure InStepAt (service : String) (a : Table α) (b : Table β) : Prop where
  has : Entries.has a service = Entries.has b service
  at? (endpoint : String) :
    (a.at? service endpoint).isSome = (b.at? service endpoint).isSome

/-- Two tables have the same services and endpoints. -/
structure InStep (a : Table α) (b : Table β) : Prop where
  has (service : String) : Entries.has a service = Entries.has b service
  at? (service endpoint : String) :
    (a.at? service endpoint).isSome = (b.at? service endpoint).isSome

theorem inStep_iff {a : Table α} {b : Table β} : InStep a b ↔ ∀ service, InStepAt service a b :=
  ⟨fun h service => ⟨h.has service, h.at? service⟩,
    fun h => ⟨fun service => (h service).has, fun service => (h service).at?⟩⟩

section InStep

variable {a : Table α} {b : Table β} {c : Table γ} {service : String}

theorem InStepAt.symm (h : InStepAt service a b) : InStepAt service b a :=
  ⟨h.has.symm, fun endpoint => (h.at? endpoint).symm⟩

theorem InStepAt.trans (h : InStepAt service a b) (h' : InStepAt service b c) :
    InStepAt service a c :=
  ⟨h.has.trans h'.has, fun endpoint => (h.at? endpoint).trans (h'.at? endpoint)⟩

/-- Tables into which the same endpoints of a service are put remain in step. -/
theorem InStepAt.put (h : InStepAt service a b) (other : String) {endpoints : Entries α}
    {endpoints' : Entries β}
    (hk : ∀ endpoint, (endpoints.value? endpoint).isSome = (endpoints'.value? endpoint).isSome) :
    InStepAt service (Entries.put a other endpoints : Table α)
      (Entries.put b other endpoints' : Table β) where
  has := by rw [Entries.has_put, Entries.has_put, h.has]
  at? endpoint := by
    by_cases hs : other = service
    · subst hs
      simp [Table.at?, hk]
    · rw [at?_put_of_ne a hs, at?_put_of_ne b hs, h.at?]

/-- Another service may change in one of the tables. -/
theorem InStepAt.put_left_of_ne (h : InStepAt service a b) {other : String} (hs : other ≠ service)
    (endpoints : Entries α) : InStepAt service (Entries.put a other endpoints : Table α) b where
  has := by rw [Entries.has_put, decide_eq_false hs, Bool.false_or, h.has]
  at? endpoint := by rw [at?_put_of_ne a hs, h.at?]

theorem InStepAt.set (h : InStepAt service a b) (other endpoint : String) (value : α) (value' : β) :
    InStepAt service (a.set other endpoint value) (b.set other endpoint value') where
  has := by rw [has_set, has_set, h.has]
  at? endpoint' := by rw [isSome_at?_set, isSome_at?_set, h.at?]

/-- A change of a value that is there keeps tables in step. -/
theorem InStepAt.set_right (h : InStepAt service a b) {other endpoint : String}
    (hs : (b.at? other endpoint).isSome = true) (value : β) :
    InStepAt service a (b.set other endpoint value) where
  has := by
    rw [has_set, h.has]
    by_cases ho : other = service
    · subst ho
      simp [has_of_at? hs]
    · simp [ho]
  at? endpoint' := by
    rw [isSome_at?_set, h.at?]
    by_cases ho : other = service ∧ endpoint = endpoint'
    · obtain ⟨rfl, rfl⟩ := ho
      simp [hs]
    · simp [ho]

theorem InStep.at_service (h : InStep a b) (service : String) : InStepAt service a b :=
  inStep_iff.1 h service

theorem InStep.symm (h : InStep a b) : InStep b a :=
  inStep_iff.2 fun service => (h.at_service service).symm

theorem InStep.trans (h : InStep a b) (h' : InStep b c) : InStep a c :=
  inStep_iff.2 fun service => (h.at_service service).trans (h'.at_service service)

theorem InStep.put_nil (h : InStep a b) (service : String) :
    InStep (Entries.put a service [] : Table α) (Entries.put b service [] : Table β) :=
  inStep_iff.2 fun other => (h.at_service other).put service fun _ => rfl

theorem InStep.set (h : InStep a b) (service endpoint : String) (value : α) (value' : β) :
    InStep (a.set service endpoint value) (b.set service endpoint value') :=
  inStep_iff.2 fun other => (h.at_service other).set service endpoint value value'

theorem InStep.set_right (h : InStep a b) {service endpoint : String}
    (hs : (b.at? service endpoint).isSome = true) (value : β) :
    InStep a (b.set service endpoint value) :=
  inStep_iff.2 fun other => (h.at_service other).set_right hs value

end InStep

end Table

namespace Catalog

/-! ### Four tables -/

/-- The four tables of a catalog have the same services and endpoints. -/
structure InStep (catalog : Catalog) : Prop where
  methods : Table.InStep catalog.types catalog.methods
  files : Table.InStep catalog.types catalog.files
  namespaces : Table.InStep catalog.types catalog.namespaces

theorem inStep_empty : empty.InStep :=
  ⟨⟨fun _ => rfl, fun _ _ => rfl⟩, ⟨fun _ => rfl, fun _ _ => rfl⟩, ⟨fun _ => rfl, fun _ _ => rfl⟩⟩

/-- The four tables of a catalog agree on a service. -/
structure InStepAt (service : String) (catalog : Catalog) : Prop where
  methods : Table.InStepAt service catalog.types catalog.methods
  files : Table.InStepAt service catalog.types catalog.files
  namespaces : Table.InStepAt service catalog.types catalog.namespaces

/-- The files go with the types and the namespaces with the methods, and the four tables agree on
every service of some kind. -/
structure InStepFor (kind : String → Prop) (catalog : Catalog) : Prop where
  files : Table.InStep catalog.types catalog.files
  namespaces : Table.InStep catalog.methods catalog.namespaces
  methods (service : String) (hs : kind service) :
    Table.InStepAt service catalog.types catalog.methods

section InStepFor

variable {kind : String → Prop} {catalog next : Catalog} {service endpoint : String}

theorem InStepFor.inStepAt (h : catalog.InStepFor kind) (hs : kind service) :
    catalog.InStepAt service where
  methods := h.methods service hs
  files := h.files.at_service service
  namespaces := (h.methods service hs).trans (h.namespaces.at_service service)

theorem InStep.inStepFor (h : catalog.InStep) : catalog.InStepFor fun _ => True where
  files := h.files
  namespaces := h.methods.symm.trans h.namespaces
  methods service _ := h.methods.at_service service

theorem InStepFor.inStep (h : catalog.InStepFor fun _ => True) : catalog.InStep where
  methods := Table.inStep_iff.2 fun service => h.methods service trivial
  files := h.files
  namespaces := Table.inStep_iff.2 fun _ => (h.inStepAt trivial).namespaces

/-! ### Room for an endpoint -/

theorem has_types_withService (catalog : Catalog) (service : String) :
    (catalog.withService service).types.has service = true := by
  unfold withService
  split
  · assumption
  · simp [Entries.has_put]

theorem InStepFor.withService (h : catalog.InStepFor kind) (service : String) :
    (catalog.withService service).InStepFor kind := by
  unfold Catalog.withService
  split
  · exact h
  · exact ⟨h.files.put_nil service, h.namespaces.put_nil service,
      fun other ho => (h.methods other ho).put service fun _ => rfl⟩

theorem InStep.withService (h : catalog.InStep) (service : String) :
    (catalog.withService service).InStep := (h.inStepFor.withService service).inStep

/-- Room for an endpoint keeps tables in step. -/
theorem InStepFor.of_ensureEndpoint (h : catalog.InStepFor kind) {file : String}
    (he : catalog.ensureEndpoint service endpoint file = .ok next) :
    next.InStepFor kind ∧ (next.types.at? service endpoint).isSome = true := by
  have hw := h.withService service
  rw [ensureEndpoint_eq] at he
  split at he
  · rename_i hsome
    cases he
    exact ⟨hw, hsome⟩
  · obtain ⟨types, ht, he⟩ := exists_of_bind_eq_ok he
    obtain ⟨methods, hm, he⟩ := exists_of_bind_eq_ok he
    obtain ⟨files, hf, he⟩ := exists_of_bind_eq_ok he
    obtain ⟨namespaces, hn, he⟩ := exists_of_bind_eq_ok he
    cases he
    obtain ⟨-, rfl⟩ := Table.set?_eq_ok.1 ht
    obtain ⟨-, rfl⟩ := Table.set?_eq_ok.1 hm
    obtain ⟨-, rfl⟩ := Table.set?_eq_ok.1 hf
    obtain ⟨-, rfl⟩ := Table.set?_eq_ok.1 hn
    refine ⟨⟨hw.files.set service endpoint _ _, hw.namespaces.set service endpoint _ _, ?_⟩, ?_⟩
    · exact fun other ho => (hw.methods other ho).set service endpoint _ _
    · simp [Table.isSome_at?_set]

/-- There is room for an endpoint of a service that the tables agree on. -/
theorem InStepFor.exists_ensureEndpoint (h : catalog.InStepFor kind) (hs : kind service)
    (endpoint file : String) : ∃ next, catalog.ensureEndpoint service endpoint file = .ok next := by
  have hw := (h.withService service).inStepAt hs
  have ht := has_types_withService catalog service
  rw [ensureEndpoint_eq]
  split
  · exact ⟨_, rfl⟩
  · rw [Table.set?_of_has ht, Table.set?_of_has (hw.methods.has ▸ ht),
      Table.set?_of_has (hw.files.has ▸ ht), Table.set?_of_has (hw.namespaces.has ▸ ht)]
    exact ⟨_, rfl⟩

/-! ### What is put for an endpoint -/

variable {options : Options} {operations : Operations} {registry : Registry}

theorem InStepFor.of_putEndpoint (h : catalog.InStepFor kind)
    (hp : catalog.putEndpoint options service endpoint operations registry = .ok next) :
    next.InStepFor kind := by
  rw [putEndpoint_eq] at hp
  obtain ⟨namespaces, hn, hp⟩ := exists_of_bind_eq_ok hp
  obtain ⟨types, ht, hp⟩ := exists_of_bind_eq_ok hp
  obtain ⟨methods, hm, hp⟩ := exists_of_bind_eq_ok hp
  cases hp
  obtain ⟨_, hat, rfl⟩ := Table.update?_eq_ok.1 ht
  obtain ⟨_, ham, rfl⟩ := Table.update?_eq_ok.1 hm
  -- each table changes at most where it has something
  have hs : (catalog.types.at? service endpoint).isSome = true := Option.isSome_of_eq_some hat
  have hs' : (catalog.methods.at? service endpoint).isSome = true := Option.isSome_of_eq_some ham
  have hnamespaces : Table.InStep catalog.methods namespaces := by
    split at hn
    · cases hn
      exact h.namespaces
    · obtain ⟨_, han, rfl⟩ := Table.update?_eq_ok.1 hn
      exact h.namespaces.set_right (Option.isSome_of_eq_some han) _
  refine ⟨(h.files.symm.set_right hs _).symm, (hnamespaces.symm.set_right hs' _).symm, ?_⟩
  exact fun other ho => (((h.methods other ho).set_right hs' _).symm.set_right hs _).symm

/-- An endpoint that is there can be filled, if the tables agree on its service. -/
theorem InStepFor.exists_putEndpoint (h : catalog.InStepFor kind) (hs : kind service)
    (ht : (catalog.types.at? service endpoint).isSome = true) (options : Options)
    (operations : Operations) (registry : Registry) :
    ∃ next, catalog.putEndpoint options service endpoint operations registry = .ok next := by
  have hat := h.inStepAt hs
  obtain ⟨types, ht'⟩ := Table.update?_of_isSome ht fun types =>
    types.putAll (operations.flatMap (operationTypes options registry))
  obtain ⟨methods, hm⟩ := Table.update?_of_isSome (hat.methods.at? endpoint ▸ ht) fun methods =>
    methods.putAll (operations.flatMap operationMethods)
  obtain ⟨namespaces, hn⟩ :=
    Table.update?_of_isSome (hat.namespaces.at? endpoint ▸ ht) (putShared registry)
  rw [putEndpoint_eq, ht', hm, hn]
  split <;> exact ⟨_, rfl⟩

theorem InStep.putEndpoint (h : catalog.InStep) (options : Options)
    (hs : (catalog.types.at? service endpoint).isSome = true) (operations : Operations)
    (registry : Registry) :
    ∃ next, catalog.putEndpoint options service endpoint operations registry = .ok next ∧
      next.InStep := by
  obtain ⟨next, hp⟩ := h.inStepFor.exists_putEndpoint trivial hs options operations registry
  exact ⟨next, hp, (h.inStepFor.of_putEndpoint hp).inStep⟩

/-! ### A whole build -/

theorem InStepFor.of_buildEndpoint (h : catalog.InStepFor kind)
    (hb : (Catalog.buildEndpoint options service endpoint operations catalog).outcome = .ok next) :
    next.InStepFor kind := by
  rw [outcome_buildEndpoint] at hb
  obtain ⟨middle, he, hp⟩ := exists_of_bind_eq_ok hb
  exact (h.of_ensureEndpoint he).1.of_putEndpoint hp

theorem InStepFor.exists_buildEndpoint (h : catalog.InStepFor kind) (hs : kind service)
    (options : Options) (endpoint : String) (operations : Operations) :
    ∃ next,
      (Catalog.buildEndpoint options service endpoint operations catalog).outcome = .ok next := by
  obtain ⟨middle, he⟩ := h.exists_ensureEndpoint hs endpoint (endpointFile service endpoint)
  obtain ⟨hm, ht⟩ := h.of_ensureEndpoint he
  rw [outcome_buildEndpoint, he]
  exact hm.exists_putEndpoint hs ht options operations _

theorem InStepFor.of_buildEndpoints (h : catalog.InStepFor kind)
    {endpoints : List (String × Operations)}
    (hb : (Catalog.buildEndpoints options service endpoints catalog).outcome = .ok next) :
    next.InStepFor kind := by
  induction endpoints generalizing catalog with
  | nil =>
    cases hb
    exact h
  | cons entry endpoints ih =>
    obtain ⟨endpoint, operations⟩ := entry
    rw [outcome_buildEndpoints_cons] at hb
    obtain ⟨middle, hm, hb⟩ := exists_of_bind_eq_ok hb
    exact ih (h.of_buildEndpoint hm) hb

theorem InStepFor.exists_buildEndpoints (h : catalog.InStepFor kind) (hs : kind service)
    (options : Options) (endpoints : List (String × Operations)) :
    ∃ next, (Catalog.buildEndpoints options service endpoints catalog).outcome = .ok next := by
  induction endpoints generalizing catalog with
  | nil => exact ⟨catalog, rfl⟩
  | cons entry endpoints ih =>
    obtain ⟨endpoint, operations⟩ := entry
    obtain ⟨middle, hb⟩ := h.exists_buildEndpoint hs options endpoint operations
    rw [outcome_buildEndpoints_cons, hb]
    exact ih (h.of_buildEndpoint hb)

/-- A build keeps tables in step, whatever it builds. -/
theorem InStepFor.of_build (h : catalog.InStepFor kind) {description : Description}
    (hb : (Catalog.build options description catalog).outcome = .ok next) :
    next.InStepFor kind := by
  induction description generalizing catalog with
  | nil =>
    cases hb
    exact h
  | cons entry description ih =>
    obtain ⟨service, endpoints⟩ := entry
    rw [outcome_build_cons] at hb
    obtain ⟨middle, hm, hb⟩ := exists_of_bind_eq_ok hb
    exact ih (h.of_buildEndpoints hm) hb

/-- A description can be built if the tables agree on its services. -/
theorem InStepFor.exists_build (h : catalog.InStepFor kind) {description : Description}
    (hs : ∀ service ∈ description.keys, kind service) (options : Options) :
    ∃ next, (Catalog.build options description catalog).outcome = .ok next := by
  induction description generalizing catalog with
  | nil => exact ⟨catalog, rfl⟩
  | cons entry description ih =>
    obtain ⟨service, endpoints⟩ := entry
    obtain ⟨hfirst, hs⟩ := List.forall_mem_cons.1 hs
    obtain ⟨middle, hb⟩ := h.exists_buildEndpoints hfirst options endpoints
    rw [outcome_build_cons, hb]
    exact ih (h.of_buildEndpoints hb) hs

/-- A description can be built into any catalog whose tables are in step. -/
theorem InStep.build (h : catalog.InStep) (options : Options) (description : Description) :
    ∃ next, (Catalog.build options description catalog).outcome = .ok next ∧ next.InStep := by
  have hs : ∀ service ∈ description.keys, True := fun _ _ => trivial
  obtain ⟨next, hb⟩ := h.inStepFor.exists_build hs options
  exact ⟨next, hb, (h.inStepFor.of_build hb).inStep⟩

end InStepFor

end Catalog

end SoapTypes
