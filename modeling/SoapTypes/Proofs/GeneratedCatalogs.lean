import SoapTypes.Catalog.Output
import SoapTypes.Proofs.KnownEnums
import SoapTypes.Proofs.MergedTables

/-!
# Catalogs of a description and a schema

A catalog is generated by building a description from nothing and adding the schema, if there is
one. The schema puts its declarations into the common service in place of the files and types that
are there, and leaves all other services alone.

* `Catalog.exists_of_generate` says what was built and added in a catalog that was generated.
* `Catalog.GeneratedFrom` says what such a catalog has beside the common service.
* `Catalog.addSchemas_keeps_endpoints`: which endpoints keep their entries and their files.
* `Catalog.generate_loses_endpoint`: an endpoint of the common service can lose them.
-/

namespace SoapTypes

/-- What a schema has to give: the names of its enumerations, and its declarations if there are
any. -/
structure Schemas.Declares (schemas : Schemas) (enums : KnownEnums) : Prop where
  enumNames : schemas.enumNames = .ok enums
  declare : schemas.isEmpty = true ∨ ∃ text, schemas.declare.outcome = .ok text

theorem Schemas.declares_nil : Schemas.Declares [] [] := ⟨rfl, .inl rfl⟩

namespace Catalog

open Entries

/-! ### One description -/

/-- The options with the enumerations of a schema. -/
def withEnums (options : Options) (enums : KnownEnums) : Options :=
  { options with known := options.known ++ enums }

/-- The work on a description and a schema, before its warnings go to the catalog. -/
def work (options : Options) (description : Description) (schemas : Schemas) :
    Traced Fault Catalog := do
  let enums ← Traced.ofExcept schemas.enumNames
  let catalog ← build (withEnums options enums) description empty
  if schemas.isEmpty then return catalog else addSchemas schemas catalog

theorem outcome_generate (options : Options) (description : Description) (schemas : Schemas) :
    (generate options description schemas).outcome =
      (work options description schemas).outcome.map fun catalog =>
        { catalog with
          warnings := catalog.warnings ++ (work options description schemas).warnings } :=
  rfl

theorem outcome_work (options : Options) (description : Description) (schemas : Schemas) :
    (work options description schemas).outcome =
      schemas.enumNames >>= fun enums =>
        (build (withEnums options enums) description empty).outcome >>= fun catalog =>
          if schemas.isEmpty then .ok catalog else (addSchemas schemas catalog).outcome := by
  unfold work
  simp only [Traced.outcome_bind]
  split <;> rfl

/-- What was built and added in a catalog that was generated; its warnings are those of the work. -/
theorem exists_of_generate {options : Options} {description : Description} {schemas : Schemas}
    {catalog : Catalog} (h : (generate options description schemas).outcome = .ok catalog) :
    ∃ enums built worked, schemas.enumNames = .ok enums ∧
      (build (withEnums options enums) description empty).outcome = .ok built ∧
      (schemas = [] ∧ worked = built ∨
        schemas ≠ [] ∧ (addSchemas schemas built).outcome = .ok worked) ∧
      catalog = { worked with warnings := catalog.warnings } := by
  cases hw : (work options description schemas).outcome with
  | error fault =>
    rw [outcome_generate, hw] at h
    cases h
  | ok worked =>
    rw [outcome_generate, hw] at h
    cases h
    rw [outcome_work] at hw
    obtain ⟨enums, hn, hw⟩ := exists_of_bind_eq_ok hw
    obtain ⟨built, hb, hw⟩ := exists_of_bind_eq_ok hw
    refine ⟨enums, built, worked, hn, hb, ?_, rfl⟩
    by_cases he : schemas.isEmpty = true
    · rw [if_pos he] at hw
      exact .inl ⟨List.isEmpty_iff.1 he, (Except.ok.inj hw).symm⟩
    · rw [if_neg he] at hw
      exact .inr ⟨mt List.isEmpty_iff.2 he, hw⟩

/-- A catalog that was generated from a description: beside the common service it has what was built
from the description. -/
structure GeneratedFrom (options : Options) (description : Description) (catalog : Catalog) :
    Prop where
  keyed : catalog.Keyed
  built : ∃ built, BuiltFrom options description built ∧
    ∀ service endpoint, service ≠ commonService → AsBefore service endpoint built catalog

theorem asBefore_addSchemas {schemas : Schemas} {catalog next : Catalog}
    (h : (addSchemas schemas catalog).outcome = .ok next) {service : String}
    (hs : service ≠ commonService) (endpoint : String) :
    AsBefore service endpoint catalog next := by
  rw [outcome_addSchemas] at h
  obtain ⟨text, -, h⟩ := exists_of_bind_eq_ok h
  cases h
  exact ⟨⟨(Table.at?_put_of_ne _ (Ne.symm hs) _ _).symm, rfl⟩, rfl,
    (Table.at?_put_of_ne _ (Ne.symm hs) _ _).symm⟩

/-- A catalog is generated if the schema gives what it has to, from any description. -/
theorem exists_generate (options : Options) (description : Description) {schemas : Schemas}
    {enums : KnownEnums} (hs : schemas.Declares enums) :
    ∃ catalog, (generate options description schemas).outcome = .ok catalog := by
  obtain ⟨built, hb, -⟩ := inStep_empty.build (withEnums options enums) description
  have hwork : (work options description schemas).outcome =
      if schemas.isEmpty then .ok built else (addSchemas schemas built).outcome := by
    rw [outcome_work, hs.enumNames]
    show ((build (withEnums options enums) description empty).outcome >>= _) = _
    rw [hb]
    rfl
  rw [outcome_generate, hwork]
  split
  · exact ⟨_, rfl⟩
  · rename_i he
    obtain ⟨text, ht⟩ := hs.declare.resolve_left he
    rw [outcome_addSchemas, ht]
    exact ⟨_, rfl⟩

/-- What a catalog has that was generated from a description without repeated names. -/
theorem exists_generatedFrom (options : Options) {description : Description}
    (hd : description.Keyed) {schemas : Schemas} {enums : KnownEnums}
    (hs : schemas.Declares enums) :
    ∃ catalog, (generate options description schemas).outcome = .ok catalog ∧
      GeneratedFrom (withEnums options enums) description catalog := by
  obtain ⟨catalog, hg⟩ := exists_generate options description hs
  obtain ⟨enums', built, worked, hn, hb, hw, hc⟩ := exists_of_generate hg
  rw [hs.enumNames, Except.ok.injEq] at hn
  subst hn
  have hfrom := builtFrom_of_build hd hb
  have hworked : worked.Keyed ∧ ∀ service endpoint, service ≠ commonService →
      AsBefore service endpoint built worked := by
    rcases hw with ⟨-, rfl⟩ | ⟨-, hw⟩
    · exact ⟨hfrom.keyed, fun service endpoint _ => .refl _ _ _⟩
    · exact ⟨hfrom.keyed.addSchemas hw, fun service endpoint hne => asBefore_addSchemas hw hne _⟩
  -- the warnings that the catalog gets are in none of its tables
  obtain ⟨hk, has⟩ := hworked
  refine ⟨catalog, hg, ?_, built, hfrom, fun service endpoint hne => ?_⟩
  · rw [hc]
    exact ⟨hk.files, hk.methods, hk.types, hk.namespaces⟩
  · rw [hc]
    have h := has service endpoint hne
    exact ⟨⟨h.types, h.namespaces⟩, h.methods, h.files⟩

/-- It is not generated if the schema does not. -/
theorem declares_of_generate {options : Options} {description : Description}
    {schemas : Schemas} {catalog : Catalog}
    (h : (generate options description schemas).outcome = .ok catalog) :
    ∃ enums, schemas.Declares enums := by
  obtain ⟨enums, built, worked, hn, -, hw, -⟩ := exists_of_generate h
  refine ⟨enums, hn, ?_⟩
  rcases hw with ⟨rfl, -⟩ | ⟨-, hw⟩
  · exact .inl rfl
  · rw [outcome_addSchemas] at hw
    obtain ⟨text, ht, -⟩ := exists_of_bind_eq_ok hw
    exact .inr ⟨text, ht⟩

/-- The types of an endpoint of a description, if it has the endpoint. -/
def generatedTypes (options : Options) (description : Description) (service endpoint : String) :
    Option (Entries String) :=
  (Table.at? description service endpoint).map fun operations =>
    ofPairs (operations.flatMap
      (operationTypes options (settleEndpoint options endpoint operations).registry))

namespace GeneratedFrom

variable {options options' : Options} {description : Description} {a b : Catalog}
  {service endpoint : String}

theorem alignedAt (h : GeneratedFrom options description a) (hs : service ≠ commonService)
    (endpoint : String) : AlignedAt service endpoint a := by
  obtain ⟨built, hb, hsame⟩ := h.built
  exact (hb.inStep.alignedAt service endpoint).of_asBefore (hsame service endpoint hs)

/-- The endpoints with a file are those of the description. -/
theorem isSome_file (h : GeneratedFrom options description a) (hs : service ≠ commonService)
    (endpoint : String) :
    (a.files.at? service endpoint).isSome = (Table.at? description service endpoint).isSome := by
  obtain ⟨built, hb, hsame⟩ := h.built
  rw [← (hsame service endpoint hs).files]
  cases hat : Table.at? description service endpoint with
  | none =>
    rw [← (hb.absent _ _ hat).files]
    rfl
  | some operations =>
    rw [(hb.filled _ _ _ hat).files]
    rfl

/-- The types of an endpoint of a description as they are generated. -/
theorem types_eq (h : GeneratedFrom options description a) (hs : service ≠ commonService)
    (endpoint : String) :
    a.types.at? service endpoint = generatedTypes options description service endpoint := by
  obtain ⟨built, hb, hsame⟩ := h.built
  rw [← (hsame service endpoint hs).types, generatedTypes]
  cases hat : Table.at? description service endpoint with
  | none =>
    rw [← (hb.absent _ _ hat).types]
    rfl
  | some operations =>
    rw [(hb.filled _ _ _ hat).types]
    rfl

/-- Catalogs that were generated with different known enumerations have the same for an endpoint
whose leaves are resolved alike. -/
theorem asBefore (h : GeneratedFrom options description a)
    (h' : GeneratedFrom options' description b) (hq : options.quoting = options'.quoting)
    (hl : options.maxPasses = options'.maxPasses) (hs : service ≠ commonService)
    {operations : Operations} (hat : Table.at? description service endpoint = some operations)
    (halike : ∀ leaf ∈ operations.leaves, Shape.LeafAlike options.known options'.known leaf) :
    AsBefore service endpoint a b := by
  obtain ⟨built, hb, hsame⟩ := h.built
  obtain ⟨built', hb', hsame'⟩ := h'.built
  have hf := (hb.filled _ _ _ hat).of_asBefore_right (hsame service endpoint hs)
  have hf' := (hb'.filled _ _ _ hat).of_asBefore_right (hsame' service endpoint hs)
  have hsettle : settleEndpoint options endpoint operations =
      settleEndpoint options' endpoint operations := by
    rw [settleEndpoint, settleEndpoint, hl, settle_known_congr halike]
  refine ⟨⟨?_, ?_⟩, ?_, ?_⟩
  · rw [hf.types, hf'.types, hsettle, flatMap_operationTypes_known_congr hq halike]
  · rw [hf.namespaces, hf'.namespaces, hsettle]
  · rw [hf.methods, hf'.methods]
  · rw [hf.files, hf'.files]

end GeneratedFrom

/-! ### What a schema takes away -/

/-- An endpoint with a file has one in the output. -/
theorem endpointOutput_mem_outputs {catalog : Catalog} {service endpoint file : String}
    (h : catalog.files.at? service endpoint = some file) :
    catalog.endpointOutput service endpoint file ∈ catalog.outputs := by
  obtain ⟨endpoints, hs, he⟩ := Option.bind_eq_some_iff.1 h
  exact List.mem_flatMap.2 ⟨_, mem_of_value? hs, List.mem_map.2 ⟨_, mem_of_value? he, rfl⟩⟩

section AddSchemas

variable {schemas : Schemas} {catalog next : Catalog} {service endpoint : String}

/-- The common service has one file after a schema was added, and its declarations beside it. -/
theorem at?_files_addSchemas (h : (addSchemas schemas catalog).outcome = .ok next)
    (endpoint : String) :
    next.files.at? commonService endpoint =
      (if endpoint = commonEndpoint then some commonEndpoint else none) ∧
    (endpoint ≠ commonEndpoint → next.types.at? commonService endpoint = none) := by
  rw [outcome_addSchemas] at h
  obtain ⟨text, -, h⟩ := exists_of_bind_eq_ok h
  cases h
  by_cases he : commonEndpoint = endpoint
  · simp [Table.at?, value?, he]
  · simp [Table.at?, value?, he, Ne.symm he]

theorem methods_addSchemas (h : (addSchemas schemas catalog).outcome = .ok next) :
    next.methods = catalog.methods ∧ next.namespaces = catalog.namespaces := by
  rw [outcome_addSchemas] at h
  obtain ⟨text, -, h⟩ := exists_of_bind_eq_ok h
  cases h
  exact ⟨rfl, rfl⟩

/-- An endpoint apart from that of the schema keeps its entries exactly if its service is not the
common one, or there is neither a file nor a type to lose. -/
theorem asBefore_addSchemas_iff (h : (addSchemas schemas catalog).outcome = .ok next)
    (hne : ¬ (service = commonService ∧ endpoint = commonEndpoint)) :
    AsBefore service endpoint catalog next ↔
      (service = commonService → catalog.files.at? service endpoint = none ∧
        catalog.types.at? service endpoint = none) := by
  by_cases hs : service = commonService
  · subst hs
    have he : endpoint ≠ commonEndpoint := fun e => hne ⟨rfl, e⟩
    obtain ⟨hf, ht⟩ := at?_files_addSchemas h endpoint
    rw [if_neg he] at hf
    obtain ⟨hm, hn⟩ := methods_addSchemas h
    refine ⟨fun hsame _ => ⟨hsame.files.trans hf, hsame.types.trans (ht he)⟩, fun hnone => ?_⟩
    obtain ⟨hnf, hnt⟩ := hnone rfl
    exact ⟨⟨hnt.trans (ht he).symm, by rw [hn]⟩, by rw [hm], hnf.trans hf.symm⟩
  · exact ⟨fun _ hc => absurd hc hs, fun _ => asBefore_addSchemas h hs endpoint⟩

end AddSchemas

/-- **What a schema takes away.** Adding a schema changes no method and no namespace, and of the
files and types only those of the common service: another endpoint of this service keeps what it
has exactly if this is nothing. So an endpoint of a description has a file in the catalog that is
generated with a schema, and one in the output, exactly if it is not such an endpoint of the common
service. -/
theorem addSchemas_keeps_endpoints (schemas : Schemas) :
    (∀ catalog next, (addSchemas schemas catalog).outcome = .ok next →
      next.methods = catalog.methods ∧ next.namespaces = catalog.namespaces ∧
      ∀ service endpoint, ¬ (service = commonService ∧ endpoint = commonEndpoint) →
        (AsBefore service endpoint catalog next ↔
          (service = commonService → catalog.files.at? service endpoint = none ∧
            catalog.types.at? service endpoint = none))) ∧
    ∀ (options : Options) (description : Description) (catalog : Catalog), description.Keyed →
      (generate options description schemas).outcome = .ok catalog →
      ∀ service endpoint, (Table.at? description service endpoint).isSome = true →
        ((catalog.files.at? service endpoint).isSome = true ↔
          (schemas ≠ [] → service = commonService → endpoint = commonEndpoint)) ∧
        ∀ file, catalog.files.at? service endpoint = some file →
          catalog.endpointOutput service endpoint file ∈ catalog.outputs := by
  constructor
  · intro catalog next h
    obtain ⟨hm, hn⟩ := methods_addSchemas h
    exact ⟨hm, hn, fun service endpoint hne => asBefore_addSchemas_iff h hne⟩
  · intro options description catalog hd hg service endpoint hat
    refine ⟨?_, fun file hf => endpointOutput_mem_outputs hf⟩
    obtain ⟨enums, built, worked, -, hb, hw, hc⟩ := exists_of_generate hg
    have hfrom := builtFrom_of_build hd hb
    -- what was built has a file for the endpoint
    obtain ⟨operations, hops⟩ := Option.isSome_iff_exists.1 hat
    have hfile : (built.files.at? service endpoint).isSome = true := by
      rw [(hfrom.filled service endpoint operations hops).files]
      rfl
    rw [hc]
    rcases hw with ⟨rfl, rfl⟩ | ⟨hne, hw⟩
    · exact iff_of_true hfile fun h => absurd rfl h
    · by_cases hs : service = commonService
      · subst hs
        have hf := (at?_files_addSchemas hw endpoint).1
        rw [hf]
        by_cases he : endpoint = commonEndpoint <;> simp [he, hne]
      · rw [← (asBefore_addSchemas hw hs endpoint).files]
        exact iff_of_true hfile fun _ hc => absurd hc hs

/-- A directory, and the common service with the endpoint of a schema and another one. -/
def directoryAndCommon : Description :=
  [("Directory", [("Book", [("Find", ⟨[], []⟩)])]),
    (commonService, [(commonEndpoint, [("List", ⟨[], []⟩)]), ("Book", [("Find", ⟨[], []⟩)])])]

/-- A schema with a namespace in which nothing is declared. -/
def bareSchema : Schemas := [("urn:shop", [])]

theorem declares_bareSchema : bareSchema.Declares [] := ⟨rfl, .inr ⟨_, rfl⟩⟩

/-- With the schema the endpoint of the directory has a file in the output. -/
theorem addSchemas_keeps_endpoints_directory :
    ∃ catalog file, (generate {} directoryAndCommon bareSchema).outcome = .ok catalog ∧
      catalog.files.at? "Directory" "Book" = some file ∧
      catalog.endpointOutput "Directory" "Book" file ∈ catalog.outputs := by
  have hd : directoryAndCommon.Keyed := by decide
  obtain ⟨catalog, hg, -⟩ := exists_generatedFrom {} hd declares_bareSchema
  obtain ⟨hfile, hout⟩ :=
    (addSchemas_keeps_endpoints bareSchema).2 {} _ _ hd hg "Directory" "Book" rfl
  obtain ⟨file, hf⟩ := Option.isSome_iff_exists.1 (hfile.2 fun _ hs => absurd hs (by decide))
  exact ⟨catalog, file, hg, hf, hout file hf⟩

/-- **An endpoint of the common service loses its file and its types**, and no file of its name is
in the output. -/
theorem generate_loses_endpoint :
    ∃ built catalog, directoryAndCommon.Keyed ∧
      (build {} directoryAndCommon empty).outcome = .ok built ∧
      (generate {} directoryAndCommon bareSchema).outcome = .ok catalog ∧
      (built.files.at? commonService "Book").isSome = true ∧
      (built.types.at? commonService "Book").isSome = true ∧
      catalog.files.at? commonService "Book" = none ∧
      catalog.types.at? commonService "Book" = none ∧
      ∀ output ∈ catalog.outputs, output.file ≠ endpointFile commonService "Book" := by
  have hd : directoryAndCommon.Keyed := by decide
  obtain ⟨built, hb, hfrom⟩ := exists_builtFrom {} hd
  obtain ⟨catalog, hg, -⟩ := exists_generatedFrom {} hd declares_bareSchema
  have hfilled := hfrom.filled commonService "Book" _ rfl
  have h : (generate {} directoryAndCommon bareSchema).outcome.toOption.map (fun catalog =>
      decide (catalog.files.at? commonService "Book" = none ∧
        catalog.types.at? commonService "Book" = none ∧
        ∀ output ∈ catalog.outputs, output.file ≠ endpointFile commonService "Book")) =
      some true := by decide +kernel
  rw [hg] at h
  refine ⟨built, catalog, hd, hb, hg, ?_, ?_, of_decide_eq_true (Option.some.inj h)⟩
  · rw [hfilled.files]
    rfl
  · rw [hfilled.types]
    rfl

end Catalog

end SoapTypes
