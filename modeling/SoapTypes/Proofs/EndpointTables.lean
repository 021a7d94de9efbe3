import SoapTypes.Catalog.Merge
import SoapTypes.Proofs.TablesInStep

/-!
# The tables after a build

A build changes the entries of the endpoints that it goes through and of no others, and what it
leaves in them is a function of their operations and of what was there before. This holds for
catalogs whose four tables have the same endpoints, and a build keeps them so.

* `Catalog.Filled` says what the four tables have for an endpoint after it was built.
* `Catalog.InStep.build_tables`: after a build each endpoint of the description is filled, and every
  other endpoint is as before.
-/

namespace SoapTypes

theorem Entries.has_eq_false {α : Type} {entries : Entries α} {key : String}
    (h : key ∉ entries.keys) : entries.has key = false := by
  rw [← Bool.not_eq_true, has_eq_true_iff]
  exact h

namespace Table

variable {α : Type}

theorem at?_eq_none_of_has {table : Table α} {service : String}
    (h : Entries.has table service = false) (endpoint : String) :
    table.at? service endpoint = none := by
  unfold Entries.has at h
  unfold at?
  rw [Option.isSome_eq_false_iff, Option.isNone_iff_eq_none] at h
  rw [h, Option.bind_none]

theorem at?_cons (first : String) (endpoints : Entries α) (table : List (String × Entries α))
    (service endpoint : String) :
    at? ((first, endpoints) :: table : Table α) service endpoint =
      if first = service then endpoints.value? endpoint
      else at? (table : Table α) service endpoint := by
  by_cases hs : first = service <;> simp [at?, Entries.value?, hs]

/-- A new service without endpoints changes no endpoint. -/
theorem at?_put_nil {table : Table α} {service : String}
    (h : Entries.has table service = false) (service' endpoint' : String) :
    at? (Entries.put table service [] : Table α) service' endpoint' =
      table.at? service' endpoint' := by
  by_cases hs : service = service'
  · subst hs
    rw [at?_eq_none_of_has h]
    simp [at?]
  · exact at?_put_of_ne table hs [] endpoint'

end Table

theorem Catalog.endpointOr_of_at? {α : Type} {table : Table (Entries α)} {service endpoint : String}
    {entries : Entries α} (h : table.at? service endpoint = some entries) :
    endpointOr table service endpoint = entries := by
  rw [endpointOr, h, Option.getD_some]

theorem Catalog.at?_eq_endpointOr {α : Type} {table : Table (Entries α)} {service endpoint : String}
    (h : (table.at? service endpoint).isSome = true) :
    table.at? service endpoint = some (endpointOr table service endpoint) := by
  obtain ⟨entries, he⟩ := Option.isSome_iff_exists.1 h
  rw [he, endpointOr_of_at? he]

namespace Catalog

/-- Two catalogs have the same in all four tables for an endpoint. -/
structure AsBefore (service endpoint : String) (a b : Catalog) : Prop
    extends SameAt service endpoint a b where
  methods : a.methods.at? service endpoint = b.methods.at? service endpoint
  files : a.files.at? service endpoint = b.files.at? service endpoint

theorem AsBefore.refl (service endpoint : String) (catalog : Catalog) :
    AsBefore service endpoint catalog catalog := ⟨⟨rfl, rfl⟩, rfl, rfl⟩

theorem AsBefore.symm {service endpoint : String} {a b : Catalog}
    (h : AsBefore service endpoint a b) : AsBefore service endpoint b a :=
  ⟨⟨h.types.symm, h.namespaces.symm⟩, h.methods.symm, h.files.symm⟩

theorem AsBefore.trans {service endpoint : String} {a b c : Catalog}
    (h : AsBefore service endpoint a b) (h' : AsBefore service endpoint b c) :
    AsBefore service endpoint a c :=
  ⟨h.toSameAt.trans h'.toSameAt, h.methods.trans h'.methods, h.files.trans h'.files⟩

/-- The namespaces of an endpoint with the shared shapes of a registry among them, if there are
any. -/
def addShared (registry : Registry) (namespaces : Namespaces) : Namespaces :=
  if registry.registered.isEmpty then namespaces else putShared registry namespaces

/-- What the tables of an endpoint hold after its operations were built, with the shared shapes of a
registry, beside what they held before. -/
structure Filled (options : Options) (service endpoint : String) (operations : Operations)
    (registry : Registry) (before after : Catalog) : Prop where
  files : after.files.at? service endpoint =
    some ((before.files.at? service endpoint).getD (endpointFile service endpoint))
  methods : after.methods.at? service endpoint =
    some ((endpointOr before.methods service endpoint).putAll
      (operations.flatMap operationMethods))
  types : after.types.at? service endpoint =
    some ((endpointOr before.types service endpoint).putAll
      (operations.flatMap (operationTypes options registry)))
  namespaces : after.namespaces.at? service endpoint =
    some (addShared registry (endpointOr before.namespaces service endpoint))

section

variable {options : Options} {service endpoint : String} {operations : Operations}
  {registry : Registry} {start before after last : Catalog}

theorem Filled.of_asBefore_left (hs : AsBefore service endpoint start before)
    (h : Filled options service endpoint operations registry before after) :
    Filled options service endpoint operations registry start after where
  files := hs.files ▸ h.files
  methods := by rw [h.methods, endpointOr, endpointOr, hs.methods]
  types := by rw [h.types, endpointOr, endpointOr, hs.types]
  namespaces := by rw [h.namespaces, endpointOr, endpointOr, hs.namespaces]

theorem Filled.of_asBefore_right
    (h : Filled options service endpoint operations registry before after)
    (hs : AsBefore service endpoint after last) :
    Filled options service endpoint operations registry before last where
  files := hs.files ▸ h.files
  methods := hs.methods ▸ h.methods
  types := hs.types ▸ h.types
  namespaces := hs.namespaces ▸ h.namespaces

end

/-! ### One endpoint -/

section Endpoint

variable {catalog : Catalog}

/-- Room for a service changes no endpoint. -/
theorem InStep.asBefore_withService (h : catalog.InStep) (service service' endpoint' : String) :
    AsBefore service' endpoint' catalog (catalog.withService service) := by
  unfold Catalog.withService
  split
  · exact .refl service' endpoint' catalog
  · rename_i hs
    have ht : Entries.has catalog.types service = false := by simpa using hs
    have hm : Entries.has catalog.methods service = false := h.methods.has service ▸ ht
    have hf : Entries.has catalog.files service = false := h.files.has service ▸ ht
    have hn : Entries.has catalog.namespaces service = false := h.namespaces.has service ▸ ht
    refine ⟨⟨?_, ?_⟩, ?_, ?_⟩
    · exact (Table.at?_put_nil ht _ _).symm
    · exact (Table.at?_put_nil hn _ _).symm
    · exact (Table.at?_put_nil hm _ _).symm
    · exact (Table.at?_put_nil hf _ _).symm

/-- Room for an endpoint: it keeps what it has, or starts with its file and nothing else. -/
theorem InStep.ensureEndpoint_tables (h : catalog.InStep) (service endpoint file : String) :
    ∃ next, catalog.ensureEndpoint service endpoint file = .ok next ∧ next.InStep ∧
      next.files.at? service endpoint = some ((catalog.files.at? service endpoint).getD file) ∧
      next.methods.at? service endpoint = some (endpointOr catalog.methods service endpoint) ∧
      next.types.at? service endpoint = some (endpointOr catalog.types service endpoint) ∧
      next.namespaces.at? service endpoint =
        some (endpointOr catalog.namespaces service endpoint) ∧
      ∀ service' endpoint', ¬ (service = service' ∧ endpoint = endpoint') →
        AsBefore service' endpoint' catalog next := by
  have hw := h.withService service
  have hs := has_types_withService catalog service
  have hroom := h.asBefore_withService service
  have hat := hroom service endpoint
  rw [ensureEndpoint_eq]
  by_cases hsome : ((catalog.withService service).types.at? service endpoint).isSome = true
  · -- the endpoint is there, in all tables
    rw [if_pos hsome]
    have hm : (catalog.methods.at? service endpoint).isSome = true := by
      rw [hat.methods, ← hw.methods.at?, hsome]
    have hf : (catalog.files.at? service endpoint).isSome = true := by
      rw [hat.files, ← hw.files.at?, hsome]
    have hn : (catalog.namespaces.at? service endpoint).isSome = true := by
      rw [hat.namespaces, ← hw.namespaces.at?, hsome]
    refine ⟨_, rfl, hw, ?_, ?_, ?_, ?_, fun service' endpoint' _ => hroom service' endpoint'⟩
    · obtain ⟨held, hh⟩ := Option.isSome_iff_exists.1 hf
      rw [← hat.files, hh, Option.getD_some]
    · rw [← hat.methods, at?_eq_endpointOr hm]
    · rw [← hat.types, at?_eq_endpointOr (hat.types ▸ hsome)]
    · rw [← hat.namespaces, at?_eq_endpointOr hn]
  · -- the endpoint is in no table, and the new one is put into each
    rw [if_neg hsome]
    have hnone : (catalog.withService service).types.at? service endpoint = none := by
      simpa using hsome
    have hm : catalog.methods.at? service endpoint = none := by
      simpa [hat.methods, hnone] using (hw.methods.at? service endpoint).symm
    have hf : catalog.files.at? service endpoint = none := by
      simpa [hat.files, hnone] using (hw.files.at? service endpoint).symm
    have hn : catalog.namespaces.at? service endpoint = none := by
      simpa [hat.namespaces, hnone] using (hw.namespaces.at? service endpoint).symm
    have ht : catalog.types.at? service endpoint = none := hat.types.trans hnone
    rw [Table.set?_of_has hs, Table.set?_of_has (hw.methods.has service ▸ hs),
      Table.set?_of_has (hw.files.has service ▸ hs),
      Table.set?_of_has (hw.namespaces.has service ▸ hs)]
    refine ⟨_, rfl, ⟨hw.methods.set service endpoint _ _, hw.files.set service endpoint _ _,
      hw.namespaces.set service endpoint _ _⟩, ?_, ?_, ?_, ?_, ?_⟩
    · rw [Table.at?_set, if_pos ⟨rfl, rfl⟩, hf, Option.getD_none]
    · rw [Table.at?_set, if_pos ⟨rfl, rfl⟩, endpointOr, hm, Option.getD_none]
    · rw [Table.at?_set, if_pos ⟨rfl, rfl⟩, endpointOr, ht, Option.getD_none]
    · rw [Table.at?_set, if_pos ⟨rfl, rfl⟩, endpointOr, hn, Option.getD_none]
    · intro service' endpoint' hne
      refine (hroom service' endpoint').trans ⟨⟨?_, ?_⟩, ?_, ?_⟩
      all_goals rw [Table.at?_set, if_neg hne]

/-- What is put for an endpoint that is there, in all four tables. -/
theorem InStep.putEndpoint_tables (h : catalog.InStep) (options : Options)
    {service endpoint : String} (hs : (catalog.types.at? service endpoint).isSome = true)
    (operations : Operations) (registry : Registry) :
    ∃ next, catalog.putEndpoint options service endpoint operations registry = .ok next ∧
      next.InStep ∧ Filled options service endpoint operations registry catalog next ∧
      ∀ service' endpoint', ¬ (service = service' ∧ endpoint = endpoint') →
        AsBefore service' endpoint' catalog next := by
  obtain ⟨next, hp, hstep⟩ := h.putEndpoint options hs operations registry
  refine ⟨next, hp, hstep, ?_⟩
  rw [putEndpoint_eq] at hp
  obtain ⟨namespaces, hn, hp⟩ := exists_of_bind_eq_ok hp
  obtain ⟨types, ht, hp⟩ := exists_of_bind_eq_ok hp
  obtain ⟨methods, hm, hp⟩ := exists_of_bind_eq_ok hp
  cases hp
  obtain ⟨heldTypes, hat, rfl⟩ := Table.update?_eq_ok.1 ht
  obtain ⟨heldMethods, ham, rfl⟩ := Table.update?_eq_ok.1 hm
  have han := at?_eq_endpointOr ((h.namespaces.at? service endpoint).symm.trans hs)
  obtain ⟨file, haf⟩ := Option.isSome_iff_exists.1 ((h.files.at? service endpoint).symm.trans hs)
  -- with nothing shared the namespaces stay, otherwise those of the endpoint are set
  have hnamespaces : namespaces.at? service endpoint =
        some (addShared registry (endpointOr catalog.namespaces service endpoint)) ∧
      ∀ service' endpoint', ¬ (service = service' ∧ endpoint = endpoint') →
        namespaces.at? service' endpoint' = catalog.namespaces.at? service' endpoint' := by
    unfold addShared
    split at hn
    · rename_i he
      cases hn
      rw [if_pos he]
      exact ⟨han, fun _ _ _ => rfl⟩
    · rename_i he
      obtain ⟨held, hheld, rfl⟩ := Table.update?_eq_ok.1 hn
      rw [if_neg he, Table.at?_set, if_pos ⟨rfl, rfl⟩, endpointOr_of_at? hheld]
      refine ⟨rfl, fun service' endpoint' hne => ?_⟩
      rw [Table.at?_set, if_neg hne]
  refine ⟨⟨?_, ?_, ?_, hnamespaces.1⟩, fun service' endpoint' hne => ⟨⟨?_, ?_⟩, ?_, rfl⟩⟩
  · rw [haf, Option.getD_some]
  · rw [Table.at?_set, if_pos ⟨rfl, rfl⟩, endpointOr_of_at? ham]
  · rw [Table.at?_set, if_pos ⟨rfl, rfl⟩, endpointOr_of_at? hat]
  · rw [Table.at?_set, if_neg hne]
  · exact (hnamespaces.2 service' endpoint' hne).symm
  · rw [Table.at?_set, if_neg hne]

/-- Building an endpoint fills its tables and leaves all others. -/
theorem InStep.buildEndpoint_tables (h : catalog.InStep) (options : Options)
    (service endpoint : String) (operations : Operations) :
    ∃ next, (Catalog.buildEndpoint options service endpoint operations catalog).outcome = .ok next ∧
      next.InStep ∧ Filled options service endpoint operations
        (settleEndpoint options endpoint operations).registry catalog next ∧
      ∀ service' endpoint', ¬ (service = service' ∧ endpoint = endpoint') →
        AsBefore service' endpoint' catalog next := by
  obtain ⟨room, hr, hrs, hf, hm, ht, hn, hother⟩ :=
    h.ensureEndpoint_tables service endpoint (endpointFile service endpoint)
  obtain ⟨next, hp, hps, hfill, hput⟩ := hrs.putEndpoint_tables options (by rw [ht]; rfl) operations
    (settleEndpoint options endpoint operations).registry
  refine ⟨next, ?_, hps, ?_, fun service' endpoint' hne => ?_⟩
  · rw [outcome_buildEndpoint, hr]
    exact hp
  · -- the room has what was there before, or starts with nothing
    constructor
    · rw [hfill.files, hf, Option.getD_some]
    · rw [hfill.methods, endpointOr_of_at? hm]
    · rw [hfill.types, endpointOr_of_at? ht]
    · rw [hfill.namespaces, endpointOr_of_at? hn]
  · exact (hother service' endpoint' hne).trans (hput service' endpoint' hne)

end Endpoint

/-! ### A whole description -/

section Build

variable {catalog : Catalog}

/-- Building the endpoints of a service fills the tables of each of them and leaves all others. -/
theorem InStep.buildEndpoints_tables (h : catalog.InStep) (options : Options) (service : String)
    {endpoints : Entries Operations} (hd : Entries.Distinct endpoints) :
    ∃ next, (Catalog.buildEndpoints options service endpoints catalog).outcome = .ok next ∧
      next.InStep ∧
      (∀ endpoint operations, Entries.value? endpoints endpoint = some operations →
        Filled options service endpoint operations
          (settleEndpoint options endpoint operations).registry catalog next) ∧
      ∀ service' endpoint', ¬ (service = service' ∧ (Entries.has endpoints endpoint' = true)) →
        AsBefore service' endpoint' catalog next := by
  induction endpoints generalizing catalog with
  | nil => exact ⟨catalog, rfl, h, by simp, fun service' endpoint' _ => .refl _ _ _⟩
  | cons entry endpoints ih =>
    obtain ⟨endpoint, operations⟩ := entry
    obtain ⟨hk, hd⟩ := List.nodup_cons.1 hd
    obtain ⟨middle, hb, hm, hfill, hother⟩ :=
      h.buildEndpoint_tables options service endpoint operations
    obtain ⟨next, hrest, hn, hfills, hothers⟩ := ih hm hd
    refine ⟨next, ?_, hn, ?_, ?_⟩
    · rw [outcome_buildEndpoints_cons, hb]
      exact hrest
    · intro endpoint' operations' hv
      by_cases he : endpoint = endpoint'
      · -- it was built now, and no other endpoint of this name comes later
        subst he
        obtain rfl : operations = operations' := by simpa [Entries.value?] using hv
        refine hfill.of_asBefore_right (hothers service endpoint fun hc => hk ?_)
        exact Entries.has_eq_true_iff.1 hc.2
      · simp only [Entries.value?, he, if_false] at hv
        refine (hfills endpoint' operations' hv).of_asBefore_left (hother service endpoint' ?_)
        exact fun hc => he hc.2
    · intro service' endpoint' hne
      refine (hother service' endpoint' fun hc => hne ⟨hc.1, ?_⟩).trans
        (hothers service' endpoint' fun hc => hne ⟨hc.1, ?_⟩)
      · simp [Entries.has, Entries.value?, hc.2]
      · rw [Entries.has_eq_true_iff] at hc ⊢
        exact List.mem_cons_of_mem _ hc.2

/-- **After a build each endpoint of the description is filled, and every other one is as before.**
The build succeeds, and the tables have the same endpoints at the end. -/
theorem InStep.build_tables (h : catalog.InStep) (options : Options) {description : Description}
    (hd : description.Keyed) :
    ∃ next, (Catalog.build options description catalog).outcome = .ok next ∧ next.InStep ∧
      (∀ service endpoint operations, Table.at? description service endpoint = some operations →
        Filled options service endpoint operations
          (settleEndpoint options endpoint operations).registry catalog next) ∧
      ∀ service endpoint, Table.at? description service endpoint = none →
        AsBefore service endpoint catalog next := by
  have hservices := hd.services
  have hendpoints := hd.endpoints
  clear hd
  induction description generalizing catalog with
  | nil => exact ⟨catalog, rfl, h, by simp [Table.at?], fun service endpoint _ => .refl _ _ _⟩
  | cons entry description ih =>
    obtain ⟨first, endpoints⟩ := entry
    obtain ⟨hk, hservices⟩ := List.nodup_cons.1 hservices
    obtain ⟨middle, hb, hm, hfill, hother⟩ :=
      h.buildEndpoints_tables options first (hendpoints _ List.mem_cons_self)
    obtain ⟨next, hrest, hn, hfills, hothers⟩ :=
      ih hm hservices fun service hs => hendpoints service (List.mem_cons_of_mem _ hs)
    -- the services that come later have other names
    have hlater : ∀ endpoint, Table.at? description first endpoint = none :=
      Table.at?_eq_none_of_has (Entries.has_eq_false hk)
    refine ⟨next, ?_, hn, ?_, ?_⟩
    · rw [outcome_build_cons, hb]
      exact hrest
    · intro service endpoint operations hv
      by_cases hs : first = service
      · subst hs
        rw [Table.at?_cons, if_pos rfl] at hv
        exact (hfill endpoint operations hv).of_asBefore_right (hothers first endpoint (hlater _))
      · rw [Table.at?_cons, if_neg hs] at hv
        refine (hfills service endpoint operations hv).of_asBefore_left (hother service endpoint ?_)
        exact fun hc => hs hc.1
    · intro service endpoint hv
      by_cases hs : first = service
      · subst hs
        rw [Table.at?_cons, if_pos rfl] at hv
        refine (hother first endpoint fun hc => ?_).trans (hothers first endpoint (hlater _))
        rw [Entries.has, hv] at hc
        exact absurd hc.2 (by simp)
      · rw [Table.at?_cons, if_neg hs] at hv
        exact (hother service endpoint fun hc => hs hc.1).trans (hothers service endpoint hv)

end Build

end Catalog

end SoapTypes
