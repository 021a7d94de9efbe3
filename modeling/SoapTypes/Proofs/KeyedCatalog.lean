import SoapTypes.Proofs.EndpointTables
import SoapTypes.Proofs.Unions

/-!
# Catalogs without repeated names

The tables of a catalog are maps on every level: services, endpoints, and the entries of each
endpoint. `Catalog.Keyed` says so, and whatever is built into such a catalog or put there for a
schema, it remains one.

* `Catalog.Keyed.build` and `Catalog.Keyed.addSchemas` are the results.
* `Catalog.BuiltFrom` gathers what holds of a catalog that a description was built into from
  nothing.
-/

namespace SoapTypes

namespace Table

open Entries

variable {α : Type}

/-- A table that repeats no service and no endpoint of a service, with values of some kind. -/
structure Keyed (inner : α → Prop) (table : Table α) : Prop extends DistinctTables table where
  values : ∀ service ∈ table, ∀ endpoint ∈ service.2, inner endpoint.2

theorem distinctTables_set {table : Table α} (h : DistinctTables table) (service endpoint : String)
    (value : α) : DistinctTables (table.set service endpoint value) :=
  h.put service (distinct_put (h.getD service) endpoint value)

section Keyed

variable {inner : α → Prop} {table : Table α}

theorem keyed_iff :
    Keyed inner table ↔ DistinctTables table ∧
      ∀ service ∈ table, ∀ endpoint ∈ service.2, inner endpoint.2 :=
  ⟨fun h => ⟨h.toDistinctTables, h.values⟩, fun h => ⟨h.1, h.2⟩⟩

theorem keyed_nil : Keyed inner [] := ⟨distinctTables_nil, by simp⟩

theorem Keyed.at? (h : Keyed inner table) {service endpoint : String} {value : α}
    (hv : table.at? service endpoint = some value) : inner value := by
  obtain ⟨endpoints, hs, he⟩ := Option.bind_eq_some_iff.1 hv
  exact h.values _ (mem_of_value? hs) _ (mem_of_value? he)

theorem Keyed.value_of_mem_getD (h : Keyed inner table) (service : String) :
    ∀ endpoint ∈ (Entries.value? table service).getD [], inner endpoint.2 := by
  cases hv : Entries.value? table service with
  | none => simp
  | some endpoints => exact h.values _ (mem_of_value? hv)

theorem Keyed.put (h : Keyed inner table) {service : String} {endpoints : Entries α}
    (hd : endpoints.Distinct) (hi : ∀ endpoint ∈ endpoints, inner endpoint.2) :
    Keyed inner (Entries.put table service endpoints) where
  toDistinctTables := h.toDistinctTables.put service hd
  values := by
    intro entry hm
    rcases mem_put hm with hm | rfl
    · exact h.values entry hm
    · exact hi

theorem Keyed.put_nil (h : Keyed inner table) (service : String) :
    Keyed inner (Entries.put table service [] : Table α) :=
  h.put List.nodup_nil (by simp)

theorem Keyed.set (h : Keyed inner table) (service endpoint : String) {value : α}
    (hi : inner value) : Keyed inner (table.set service endpoint value) := by
  refine h.put (distinct_put (h.getD service) _ _) fun entry hm => ?_
  rcases mem_put hm with hm | rfl
  · exact h.value_of_mem_getD service entry hm
  · exact hi

theorem Keyed.update? (h : Keyed inner table) {service endpoint : String} {f : α → α}
    (hi : ∀ value, inner value → inner (f value)) {next : Table α}
    (hu : table.update? service endpoint f = .ok next) : Keyed inner next := by
  obtain ⟨value, hv, rfl⟩ := update?_eq_ok.1 hu
  exact h.set service endpoint (hi value (h.at? hv))

end Keyed

end Table

namespace Catalog

open Entries

/-- A catalog of which no table repeats a name on any level. -/
structure Keyed (catalog : Catalog) : Prop where
  files : DistinctTables catalog.files
  methods : Table.Keyed Entries.Distinct catalog.methods
  types : Table.Keyed Entries.Distinct catalog.types
  namespaces : Table.Keyed DistinctTables catalog.namespaces

theorem keyed_empty : empty.Keyed where
  files := distinctTables_nil
  methods := Table.keyed_nil
  types := Table.keyed_nil
  namespaces := Table.keyed_nil

section Build

variable {catalog next : Catalog} {options : Options} {service endpoint : String}

theorem Keyed.withService (h : catalog.Keyed) (service : String) :
    (catalog.withService service).Keyed := by
  unfold Catalog.withService
  split
  · exact h
  · exact ⟨h.files.put service List.nodup_nil, h.methods.put_nil service, h.types.put_nil service,
      h.namespaces.put_nil service⟩

theorem Keyed.ensureEndpoint (h : catalog.Keyed) {file : String}
    (he : catalog.ensureEndpoint service endpoint file = .ok next) : next.Keyed := by
  have hw := h.withService service
  rw [ensureEndpoint_eq] at he
  split at he
  · cases he
    exact hw
  · obtain ⟨types, ht, he⟩ := exists_of_bind_eq_ok he
    obtain ⟨methods, hm, he⟩ := exists_of_bind_eq_ok he
    obtain ⟨files, hf, he⟩ := exists_of_bind_eq_ok he
    obtain ⟨namespaces, hn, he⟩ := exists_of_bind_eq_ok he
    cases he
    constructor
    · rw [(Table.set?_eq_ok.1 hf).2]
      exact Table.distinctTables_set hw.files _ _ _
    · rw [(Table.set?_eq_ok.1 hm).2]
      exact hw.methods.set _ _ List.nodup_nil
    · rw [(Table.set?_eq_ok.1 ht).2]
      exact hw.types.set _ _ List.nodup_nil
    · rw [(Table.set?_eq_ok.1 hn).2]
      exact hw.namespaces.set _ _ distinctTables_nil

theorem distinctTables_putShared {namespaces : Namespaces} (h : DistinctTables namespaces)
    (registry : Registry) : DistinctTables (putShared registry namespaces) :=
  h.put registry.ns (distinct_putAll (h.getD registry.ns) _)

theorem Keyed.putEndpoint (h : catalog.Keyed) {operations : Operations} {registry : Registry}
    (hp : catalog.putEndpoint options service endpoint operations registry = .ok next) :
    next.Keyed := by
  rw [putEndpoint_eq] at hp
  obtain ⟨namespaces, hn, hp⟩ := exists_of_bind_eq_ok hp
  obtain ⟨types, ht, hp⟩ := exists_of_bind_eq_ok hp
  obtain ⟨methods, hm, hp⟩ := exists_of_bind_eq_ok hp
  cases hp
  refine ⟨h.files, h.methods.update? (fun _ hv => distinct_putAll hv _) hm,
    h.types.update? (fun _ hv => distinct_putAll hv _) ht, ?_⟩
  split at hn
  · cases hn
    exact h.namespaces
  · exact h.namespaces.update? (fun _ hv => distinctTables_putShared hv registry) hn

theorem Keyed.buildEndpoint (h : catalog.Keyed) {operations : Operations}
    (hb : (Catalog.buildEndpoint options service endpoint operations catalog).outcome = .ok next) :
    next.Keyed := by
  rw [outcome_buildEndpoint] at hb
  obtain ⟨middle, he, hp⟩ := exists_of_bind_eq_ok hb
  exact (h.ensureEndpoint he).putEndpoint hp

theorem Keyed.buildEndpoints (h : catalog.Keyed) {endpoints : List (String × Operations)}
    (hb : (Catalog.buildEndpoints options service endpoints catalog).outcome = .ok next) :
    next.Keyed := by
  induction endpoints generalizing catalog with
  | nil =>
    cases hb
    exact h
  | cons entry endpoints ih =>
    obtain ⟨endpoint, operations⟩ := entry
    rw [outcome_buildEndpoints_cons] at hb
    obtain ⟨middle, hm, hb⟩ := exists_of_bind_eq_ok hb
    exact ih (h.buildEndpoint hm) hb

/-- A build repeats no name. -/
theorem Keyed.build (h : catalog.Keyed) {description : Description}
    (hb : (Catalog.build options description catalog).outcome = .ok next) : next.Keyed := by
  induction description generalizing catalog with
  | nil =>
    cases hb
    exact h
  | cons entry description ih =>
    obtain ⟨service, endpoints⟩ := entry
    rw [outcome_build_cons] at hb
    obtain ⟨middle, hm, hb⟩ := exists_of_bind_eq_ok hb
    exact ih (h.buildEndpoints hm) hb

theorem outcome_addSchemas (schemas : Schemas) (catalog : Catalog) :
    (addSchemas schemas catalog).outcome = schemas.declare.outcome >>= fun text =>
      .ok { catalog with
        files := catalog.files.put commonService [(commonEndpoint, commonEndpoint)]
        types := catalog.types.put commonService [(commonEndpoint, [(finishedText, text)])] } := by
  unfold addSchemas
  rw [Traced.outcome_bind]
  rfl

/-- The declarations of a schema repeat no name. -/
theorem Keyed.addSchemas (h : catalog.Keyed) {schemas : Schemas}
    (hs : (Catalog.addSchemas schemas catalog).outcome = .ok next) : next.Keyed := by
  rw [outcome_addSchemas] at hs
  obtain ⟨text, -, hs⟩ := exists_of_bind_eq_ok hs
  cases hs
  refine ⟨h.files.put _ (by simp [Entries.Distinct]), h.methods, h.types.put ?_ ?_, h.namespaces⟩
  · simp [Entries.Distinct]
  · simp [Entries.Distinct]

end Build

/-! ### A description built from nothing -/

/-- What a catalog has that a description was built into from nothing: its endpoints, and no
others. -/
structure BuiltFrom (options : Options) (description : Description) (catalog : Catalog) : Prop where
  inStep : catalog.InStep
  keyed : catalog.Keyed
  filled : ∀ service endpoint operations,
    Table.at? description service endpoint = some operations →
      Filled options service endpoint operations
        (settleEndpoint options endpoint operations).registry empty catalog
  absent : ∀ service endpoint, Table.at? description service endpoint = none →
    AsBefore service endpoint empty catalog

theorem exists_builtFrom (options : Options) {description : Description} (hd : description.Keyed) :
    ∃ catalog, (build options description empty).outcome = .ok catalog ∧
      BuiltFrom options description catalog := by
  obtain ⟨catalog, hb, hs, hf, ha⟩ := inStep_empty.build_tables options hd
  exact ⟨catalog, hb, hs, keyed_empty.build hb, hf, ha⟩

theorem builtFrom_of_build {options : Options} {description : Description}
    (hd : description.Keyed) {catalog : Catalog}
    (hb : (build options description empty).outcome = .ok catalog) :
    BuiltFrom options description catalog := by
  obtain ⟨built, hb', h⟩ := exists_builtFrom options hd
  rw [hb, Except.ok.injEq] at hb'
  exact hb' ▸ h

end Catalog

end SoapTypes
