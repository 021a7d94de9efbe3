import SoapTypes.Proofs.MergedTables

/-!
# Catalogs that come about

A catalog comes about from nothing by building descriptions into it, by adding schemas, and by
merging catalogs. Builds and merges keep the four tables in step. A schema does not: it puts the
common service among the files and the types, in place of what is there, and into neither of the
other tables.

* `Catalog.InStepFor.merge` and `Catalog.InStepFor.addSchemas`: what a merge and a schema keep.
* `Catalog.inStep_of_reachable`: the four tables agree on every service, except for the common one
  after a schema was added, and what they agree on can be built.
* `Catalog.reachable_not_inStep`: on the common service they need not agree, and then it cannot.
-/

namespace SoapTypes.Catalog

open Entries

/-! ### Merges -/

section Merge

variable {β γ : Type} {table : Catalog → Table (Entries β)} {other : Catalog → Table (Entries γ)}
  {unite : Entries β → Entries β → Entries β} {unite' : Entries γ → Entries γ → Entries γ}
  {inner : Entries β → Prop} {inner' : Entries γ → Prop} {a b : Catalog} {service : String}
  {kind : String → Prop}

/-- Two tables that follow the files agree on a service of a merge if they do in both catalogs. -/
theorem Merges.inStepAt_merge (h : Merges table unite inner) (h' : Merges other unite' inner')
    (hf : DistinctTables b.files) (ha : Table.InStepAt service (table a) (other a))
    (hb : Table.InStepAt service (table b) (other b)) :
    Table.InStepAt service (table (a.merge b)) (other (a.merge b)) where
  has := by
    rw [Bool.eq_iff_iff, h.has_merge a hf.names, h'.has_merge a hf.names, ha.has]
  at? endpoint := by
    rw [h.at?_merge a hf, h'.at?_merge a hf]
    split
    · exact hb.at? endpoint
    · split
      · rfl
      · exact ha.at? endpoint

theorem inStep_types_files_merge (hf : DistinctTables b.files)
    (ha : Table.InStep a.types a.files) (hb : Table.InStep b.types b.files) :
    Table.InStep (a.merge b).types (a.merge b).files where
  has service := by
    rw [Bool.eq_iff_iff, merges_types.has_merge a hf.names, has_files_merge hf.names, ha.has]
    cases a.files.has service <;> simp
  at? service endpoint := by
    rw [merges_types.at?_merge_of_isSome hf (ha.at? service endpoint) (hb.at? service endpoint),
      at?_files_merge hf, Option.isSome_merge, Option.isSome_or, ha.at?, hb.at?, Bool.or_comm]

/-- Tables in step remain so in a merge. -/
theorem InStepFor.merge (ha : a.InStepFor kind) (hb : b.InStepFor kind)
    (hf : DistinctTables b.files) : (a.merge b).InStepFor kind where
  files := inStep_types_files_merge hf ha.files hb.files
  namespaces := Table.inStep_iff.2 fun service =>
    merges_methods.inStepAt_merge merges_namespaces hf (ha.namespaces.at_service service)
      (hb.namespaces.at_service service)
  methods service hs :=
    merges_types.inStepAt_merge merges_methods hf (ha.methods service hs) (hb.methods service hs)

theorem InStep.merge (ha : a.InStep) (hb : b.InStep) (hf : DistinctTables b.files) :
    (a.merge b).InStep := (ha.inStepFor.merge hb.inStepFor hf).inStep

end Merge

/-! ### Schemas -/

section Schemas

variable {kind kind' : String → Prop} {catalog next : Catalog}

theorem InStepFor.mono (h : catalog.InStepFor kind) (hk : ∀ service, kind' service → kind service) :
    catalog.InStepFor kind' :=
  ⟨h.files, h.namespaces, fun service hs => h.methods service (hk service hs)⟩

/-- A schema keeps tables in step on all services but the common one. -/
theorem InStepFor.addSchemas (h : catalog.InStepFor kind) {schemas : Schemas}
    (hs : (Catalog.addSchemas schemas catalog).outcome = .ok next) :
    next.InStepFor fun service => service ≠ commonService ∧ kind service := by
  rw [outcome_addSchemas] at hs
  obtain ⟨text, -, hs⟩ := exists_of_bind_eq_ok hs
  cases hs
  refine ⟨?_, h.namespaces, fun service hs => (h.methods service hs.2).put_left_of_ne hs.1.symm _⟩
  -- the same endpoint is put among the files and the types
  refine Table.inStep_iff.2 fun service => (h.files.at_service service).put commonService ?_
  intro endpoint
  by_cases he : commonEndpoint = endpoint <;> simp [value?, he]

end Schemas

/-! ### From nothing -/

/-- The catalogs that come about from nothing; `common` says whether a schema was added on the
way. -/
inductive Reachable : (common : Bool) → Catalog → Prop where
  | empty : Reachable false empty
  | build {common : Bool} {catalog next : Catalog} (options : Options) (description : Description)
      (h : Reachable common catalog)
      (hb : (Catalog.build options description catalog).outcome = .ok next) : Reachable common next
  | addSchemas {common : Bool} {catalog next : Catalog} (schemas : Schemas)
      (h : Reachable common catalog)
      (hs : (Catalog.addSchemas schemas catalog).outcome = .ok next) : Reachable true next
  | merge {common common' : Bool} {a b : Catalog} (ha : Reachable common a)
      (hb : Reachable common' b) : Reachable (common || common') (a.merge b)

variable {common : Bool} {catalog : Catalog}

/-- The tables of a catalog repeat no name and are in step, whatever the way to it. -/
theorem Reachable.keyed_inStepFor (h : Reachable common catalog) :
    catalog.Keyed ∧
      catalog.InStepFor fun service => common = true → service ≠ commonService := by
  induction h with
  | empty => exact ⟨keyed_empty, inStep_empty.inStepFor.mono fun _ _ => trivial⟩
  | build options description _ hb ih => exact ⟨ih.1.build hb, ih.2.of_build hb⟩
  | addSchemas schemas _ hs ih =>
    refine ⟨ih.1.addSchemas hs, (ih.2.addSchemas hs).mono fun service hne => ?_⟩
    exact ⟨hne rfl, fun _ => hne rfl⟩
  | merge _ _ iha ihb =>
    refine ⟨iha.1.merge ihb.1, InStepFor.merge ?_ ?_ ihb.1.files⟩
    · exact iha.2.mono fun service hs hc => hs (by rw [hc, Bool.true_or])
    · exact ihb.2.mono fun service hs hc => hs (by rw [hc, Bool.or_true])

/-- **The four tables of a catalog that comes about stay in step.** The files have the same services
and endpoints as the types, and the methods the same as the namespaces. All four tables agree on
every service, apart from the common one if a schema was added. A further build of any description
succeeds, unless a schema was added and the description has the common service. -/
theorem inStep_of_reachable (h : Reachable common catalog) :
    Table.InStep catalog.types catalog.files ∧
      Table.InStep catalog.methods catalog.namespaces ∧
      (∀ service, (common = true → service ≠ commonService) → catalog.InStepAt service) ∧
      ∀ (options : Options) (description : Description),
        (common = true → description.has commonService = false) →
        ∃ next, (build options description catalog).outcome = .ok next := by
  obtain ⟨-, hstep⟩ := h.keyed_inStepFor
  refine ⟨hstep.files, hstep.namespaces, fun service hs => hstep.inStepAt hs, ?_⟩
  intro options description hd
  refine hstep.exists_build (fun service hm hc hs => ?_) options
  -- a service of the description is not the common one, which the description lacks
  have hhas := has_eq_true_iff.2 hm
  rw [hs, hd hc] at hhas
  cases hhas

/-- A directory of books. -/
def directory (service : String) : Description := [(service, [("Book", [("Find", ⟨[], []⟩)])])]

/-- A schema without namespaces can be added to any catalog. -/
theorem exists_addSchemas_nil (catalog : Catalog) :
    ∃ next, (addSchemas [] catalog).outcome = .ok next := by
  rw [outcome_addSchemas]
  exact ⟨_, rfl⟩

/-- A directory with a schema: the four tables agree on the directory, and it can be built once
more. -/
theorem inStep_of_reachable_directory :
    ∃ built catalog, (build {} (directory "Directory") empty).outcome = .ok built ∧
      (addSchemas [] built).outcome = .ok catalog ∧ catalog.InStepAt "Directory" ∧
      ∃ next, (build {} (directory "Directory") catalog).outcome = .ok next := by
  obtain ⟨built, hb, -⟩ := inStep_empty.build {} (directory "Directory")
  obtain ⟨catalog, hc⟩ := exists_addSchemas_nil built
  have hr : Reachable true catalog := .addSchemas [] (.build {} _ .empty hb) hc
  obtain ⟨-, -, hat, hbuild⟩ := inStep_of_reachable hr
  exact ⟨built, catalog, hb, hc, hat "Directory" fun _ => by decide,
    hbuild {} (directory "Directory") fun _ => rfl⟩

/-- **After a schema the four tables do not agree on the common service**, and a description with
this service cannot be built. -/
theorem reachable_not_inStep :
    ∃ catalog, Reachable true catalog ∧ ¬ catalog.InStep ∧
      (directory commonService).Keyed ∧
      (build {} (directory commonService) catalog).outcome = .error .missingEntry := by
  obtain ⟨catalog, hc⟩ := exists_addSchemas_nil empty
  refine ⟨catalog, .addSchemas [] .empty hc, fun h => ?_, by decide, ?_⟩
  · -- the types have the common service, the methods do not
    have hs := h.methods.has commonService
    rw [outcome_addSchemas] at hc
    cases hc
    cases hs
  · rw [outcome_addSchemas] at hc
    cases hc
    rfl

end SoapTypes.Catalog
