import SoapTypes.Proofs.SeveralDescriptions

/-!
# Runs that fail

A run loads and builds all of its inputs before it writes the first file. So a run that ends at an
input, or that does not get as far, writes nothing, wherever the input stands among the others; and
of several such inputs the first one decides how the run ends. Half of a surrogate pair in a string
of an input is no failure; it is read as U+FFFD.

* `Program.Fails` says which steps of the work on an input can fail.
* `Program.FirstFailure` is the input at which a run ends; `Program.exists_firstFailure`: with an
  input that fails there is one, and the catalogs do not come about.
* `Program.writes_of_failed_run`: a failed run writes nothing.
-/

namespace SoapTypes

/-- How a run ends at a fault: a document that cannot be loaded is reported, and nothing else is. -/
def Ending.ofFault : Fault → Ending
  | .load _ => .exit 1 ""
  | fault => .crash fault

namespace Program

variable {files : Files} {settings : Settings}

/-! ### The work on one input -/

/-- A step of the work on an input with a schema fails: there is no path, the description or the
schema cannot be loaded, or no catalog can be built from them. -/
inductive Fails (files : Files) (settings : Settings) (schema : Option String) : Given → Prop
  | nothing : Fails files settings schema none
  | description {path : String} {fault : Fault} (h : Description.load files path = .error fault) :
      Fails files settings schema (some path)
  | schema {path : String} {fault : Fault} (h : Schemas.load files schema = .error fault) :
      Fails files settings schema (some path)
  | build {path : String} {description : Description} {schemas : Schemas} {fault : Fault}
      (hd : Description.load files path = .ok description)
      (hs : Schemas.load files schema = .ok schemas)
      (h : (generate settings description schemas).outcome = .error fault) :
      Fails files settings schema (some path)

theorem outcome_loadAndGenerate_some (files : Files) (settings : Settings) (schema : Option String)
    (path : String) :
    (loadAndGenerate files settings schema (some path)).outcome =
      Description.load files path >>= fun description =>
        Schemas.load files schema >>= fun schemas =>
          (generate settings description schemas).outcome := by
  rw [loadAndGenerate, Traced.outcome_bind]
  simp only [Traced.outcome_bind]
  rfl

/-- The work on an input fails exactly if one of its steps does. -/
theorem fails_iff {schema : Option String} {given : Given} :
    Fails files settings schema given ↔
      ∃ fault, (loadAndGenerate files settings schema given).outcome = .error fault := by
  cases given with
  | none => exact iff_of_true .nothing ⟨.nothingGiven, rfl⟩
  | some path =>
    rw [outcome_loadAndGenerate_some]
    constructor
    · intro h
      cases h with
      | description h => exact ⟨_, by rw [h]; rfl⟩
      | schema h =>
        cases hd : Description.load files path with
        | error fault => exact ⟨fault, rfl⟩
        | ok description => exact ⟨_, by rw [h]; rfl⟩
      | build hd hs h => exact ⟨_, by rw [hd, hs]; exact h⟩
    · rintro ⟨fault, h⟩
      cases hd : Description.load files path with
      | error fault => exact .description hd
      | ok description =>
        cases hs : Schemas.load files schema with
        | error fault => exact .schema hs
        | ok schemas =>
          rw [hd, hs] at h
          exact .build hd hs h

/-! ### All inputs -/

/-- The outcome of the work on the input at a position. The schema belongs to the first one. -/
def outcomeAt? (files : Files) (settings : Settings) (schema : Option String) (given : List Given)
    (position : Nat) : Option (Except Fault Catalog) :=
  given[position]?.map fun path =>
    (loadAndGenerate files settings (if position = 0 then schema else none) path).outcome

/-- The input at a position is the first one whose work fails. -/
structure FirstFailure (files : Files) (settings : Settings) (schema : Option String)
    (given : List Given) (position : Nat) (fault : Fault) : Prop where
  fails : outcomeAt? files settings schema given position = some (.error fault)
  succeeds : ∀ earlier < position, ∃ catalog,
    outcomeAt? files settings schema given earlier = some (.ok catalog)

theorem outcomeAt?_zero (schema : Option String) (path : Given) (paths : List Given) :
    outcomeAt? files settings schema (path :: paths) 0 =
      some (loadAndGenerate files settings schema path).outcome := rfl

/-- Behind the first input there is no schema. -/
theorem outcomeAt?_succ (schema : Option String) (path : Given) (paths : List Given)
    (position : Nat) :
    outcomeAt? files settings schema (path :: paths) (position + 1) =
      outcomeAt? files settings none paths position := by
  simp [outcomeAt?]

/-- If the catalogs come about, so does each of them. -/
theorem exists_outcomeAt?_of_catalogs {schema : Option String} {given : List Given}
    {built : List Catalog} (h : (catalogs files settings schema given).outcome = .ok built)
    {position : Nat} (hp : position < given.length) :
    ∃ catalog, outcomeAt? files settings schema given position = some (.ok catalog) := by
  induction given generalizing schema built position with
  | nil => cases hp
  | cons path paths ih =>
    rw [outcome_catalogs_cons] at h
    obtain ⟨first, hfirst, h⟩ := exists_of_bind_eq_ok h
    obtain ⟨others, hothers, -⟩ := exists_of_bind_eq_ok h
    cases position with
    | zero => exact ⟨first, by rw [outcomeAt?_zero, hfirst]⟩
    | succ position =>
      rw [outcomeAt?_succ]
      exact ih hothers (Nat.lt_of_succ_lt_succ hp)

/-- If the catalogs do not come about, the first input that fails is the cause. -/
theorem exists_firstFailure_of_catalogs {schema : Option String} {given : List Given}
    {fault : Fault} (h : (catalogs files settings schema given).outcome = .error fault) :
    ∃ position, FirstFailure files settings schema given position fault := by
  induction given generalizing schema with
  | nil => cases h
  | cons path paths ih =>
    rw [outcome_catalogs_cons] at h
    cases hfirst : (loadAndGenerate files settings schema path).outcome with
    | error cause =>
      rw [hfirst] at h
      cases h
      exact ⟨0, by rw [outcomeAt?_zero, hfirst], by simp⟩
    | ok first =>
      have hothers : (catalogs files settings none paths).outcome = .error fault := by
        cases ho : (catalogs files settings none paths).outcome with
        | error cause =>
          rw [hfirst, ho] at h
          cases h
          rfl
        | ok others =>
          rw [hfirst, ho] at h
          cases h
      obtain ⟨position, hf⟩ := ih hothers
      refine ⟨position + 1, by rw [outcomeAt?_succ, hf.fails], fun earlier he => ?_⟩
      cases earlier with
      | zero => exact ⟨first, by rw [outcomeAt?_zero, hfirst]⟩
      | succ earlier =>
        rw [outcomeAt?_succ]
        exact hf.succeeds earlier (Nat.lt_of_succ_lt_succ he)

/-- With an input that fails the catalogs do not come about, and the first such input is the
cause. -/
theorem exists_firstFailure {schema : Option String} {given : List Given} {position : Nat}
    {cause : Fault} (h : outcomeAt? files settings schema given position = some (.error cause)) :
    ∃ first ≤ position, ∃ fault, FirstFailure files settings schema given first fault ∧
      (catalogs files settings schema given).outcome = .error fault := by
  have hp : position < given.length := by
    obtain ⟨path, hpath, -⟩ := Option.map_eq_some_iff.1 h
    exact (List.getElem?_eq_some_iff.1 hpath).1
  cases hc : (catalogs files settings schema given).outcome with
  | ok built =>
    obtain ⟨catalog, ho⟩ := exists_outcomeAt?_of_catalogs hc hp
    rw [h] at ho
    cases ho
  | error fault =>
    obtain ⟨first, hf⟩ := exists_firstFailure_of_catalogs hc
    refine ⟨first, Nat.le_of_not_lt fun hlt => ?_, fault, hf, rfl⟩
    obtain ⟨catalog, ho⟩ := hf.succeeds position hlt
    rw [h] at ho
    cases ho

/-! ### Whole runs -/

theorem outcome_catalog_of_error {fault : Fault}
    (h : (catalogs files settings settings.schema settings.descriptions).outcome = .error fault) :
    (catalog files settings).outcome = .error fault := by
  rw [catalog, Traced.outcome_bind, h]
  rfl

/-- A run whose catalog does not come about ends as the fault says, and writes nothing. -/
theorem runSettings_of_error {fault : Fault} (h : (catalog files settings).outcome = .error fault)
    (here : Spot) :
    (runSettings files here settings).ending = .ofFault fault ∧
      (runSettings files here settings).writes = [] := by
  unfold runSettings
  simp only [h]
  cases fault <;> exact ⟨rfl, rfl⟩

/-- A run with settings that ends with a status apart from 0 writes nothing. -/
theorem writes_runSettings {here : Spot} {status : UInt32} {complaint : String}
    (h : (runSettings files here settings).ending = .exit status complaint) (hs : status ≠ 0) :
    (runSettings files here settings).writes = [] := by
  cases hc : (catalog files settings).outcome with
  | error fault => exact (runSettings_of_error hc here).2
  | ok built =>
    -- once something is written the run ends with 0 or by a fault in the writing
    simp only [runSettings, hc, finish] at h
    split at h
    · cases h
    · cases h
      exact absurd rfl hs

/-- A run without settings writes nothing. -/
theorem writes_of_settings_error {words : List String} {environment : Settings.Environment}
    {outcome : Outcome} (h : Program.settings words environment = .error outcome) :
    outcome.writes = [] := by
  unfold Program.settings at h
  split at h
  · cases h
    rfl
  · cases h
    rfl
  · split at h
    · cases h
      rfl
    · split at h
      · cases h
        rfl
      · cases h

/-- A command line that can be read has a description. -/
theorem descriptions_ne_nil_of_parse {words : List String} {arguments : Arguments}
    (h : Arguments.parse words = .ok arguments) : arguments.descriptions ≠ [] := by
  unfold Arguments.parse at h
  obtain ⟨readings, -, h⟩ := exists_of_bind_eq_ok h
  obtain ⟨⟨read, left⟩, -, h⟩ := exists_of_bind_eq_ok h
  simp only at h
  split at h
  · cases h
  · rename_i hmissing
    split at h
    · cases h
    · cases h
      intro hnone
      refine hmissing ?_
      simp [Switch.required, Arguments.isGiven, hnone]

/-- A run with settings has a description. -/
theorem descriptions_ne_nil {words : List String} {environment : Settings.Environment}
    {settings : Settings} (h : Program.settings words environment = .ok settings) :
    settings.descriptions ≠ [] := by
  unfold Program.settings at h
  split at h
  · cases h
  · cases h
  · rename_i arguments hparse
    split at h
    · cases h
    · split at h
      · cases h
      · cases h
        exact descriptions_ne_nil_of_parse hparse

theorem run_of_settings {words : List String} {environment : Settings.Environment}
    {settings : Settings} (h : Program.settings words environment = .ok settings) (files : Files)
    (here : Spot) : run words environment files here = runSettings files here settings := by
  rw [run, h]

/-- With an input whose work fails a run writes nothing, and the first such input decides how it
ends. -/
theorem run_of_fails {words : List String} {environment : Settings.Environment}
    (hs : Program.settings words environment = .ok settings) {position : Nat} {given : Given}
    (hg : settings.descriptions[position]? = some given)
    (hf : Fails files settings (if position = 0 then settings.schema else none) given)
    (here : Spot) :
    (run words environment files here).writes = [] ∧
      ∃ first ≤ position, ∃ fault,
        FirstFailure files settings settings.schema settings.descriptions first fault ∧
        (run words environment files here).ending = .ofFault fault := by
  obtain ⟨cause, hcause⟩ := fails_iff.1 hf
  have hat : outcomeAt? files settings settings.schema settings.descriptions position =
      some (.error cause) := by rw [outcomeAt?, hg, Option.map_some, hcause]
  obtain ⟨first, hle, fault, hfirst, hc⟩ := exists_firstFailure hat
  obtain ⟨hending, hwrites⟩ := runSettings_of_error (outcome_catalog_of_error hc) here
  rw [run_of_settings hs]
  exact ⟨hwrites, first, hle, fault, hfirst, hending⟩

/-- **A failed run writes nothing.** This holds for a run that ends with a status apart from 0 or
has no settings, for one whose schema cannot be loaded, and for one with an input whose work fails,
at any position. In the last case the first such input decides how the run ends. -/
theorem writes_of_failed_run (words : List String) (environment : Settings.Environment)
    (files : Files) (here : Spot) :
    (∀ status complaint, (run words environment files here).ending = .exit status complaint →
      status ≠ 0 → (run words environment files here).writes = []) ∧
    (∀ outcome, Program.settings words environment = .error outcome →
      (run words environment files here).writes = []) ∧
    ∀ settings, Program.settings words environment = .ok settings →
      (∀ fault, Schemas.load files settings.schema = .error fault →
        (run words environment files here).writes = []) ∧
      ∀ position given, settings.descriptions[position]? = some given →
        Fails files settings (if position = 0 then settings.schema else none) given →
        (run words environment files here).writes = [] ∧
        ∃ first ≤ position, ∃ fault,
          FirstFailure files settings settings.schema settings.descriptions first fault ∧
          (run words environment files here).ending = .ofFault fault := by
  refine ⟨fun status complaint h hs => ?_, fun outcome h => ?_, fun settings hs =>
    ⟨fun fault h => ?_, fun position given hg hf => run_of_fails hs hg hf here⟩⟩
  · cases hsettings : Program.settings words environment with
    | error outcome =>
      rw [run, hsettings]
      exact writes_of_settings_error hsettings
    | ok settings =>
      rw [run_of_settings hsettings] at h ⊢
      exact writes_runSettings h hs
  · rw [run, h]
    exact writes_of_settings_error h
  · -- the schema is loaded with the first description, and there is one
    obtain ⟨given, others, hgiven⟩ := List.exists_cons_of_ne_nil (descriptions_ne_nil hs)
    have hfails : Fails files settings settings.schema given := by
      cases given with
      | none => exact .nothing
      | some path => exact .schema h
    have hfirst : settings.descriptions[0]? = some given := by
      rw [hgiven]
      rfl
    exact (run_of_fails hs hfirst hfails here).1

/-- A command line with a description that is there and one that is not. -/
def lostWords : List String :=
  ["-d", "book", "-d", "lost", "--schema", "units", "-o", "out", "-v"]

/-- What it says. -/
def lostSettings : Settings :=
  { shopSettings [] with descriptions := [some "book", some "lost"], verbose := true }

/-- The run ends at the second description, although the first one is good. -/
theorem writes_of_failed_run_lost :
    Program.settings lostWords [] = .ok lostSettings ∧
      Fails shopFiles lostSettings none (some "lost") ∧
      (run lostWords [] shopFiles ["work"]).writes = [] ∧
      (run lostWords [] shopFiles ["work"]).ending = .exit 1 "" ∧
      FirstFailure shopFiles lostSettings (some "units") [some "book", some "lost"] 1
        (.load (.missing "lost")) := by
  have hs : Program.settings lostWords [] = .ok lostSettings := rfl
  have hlost : Description.load shopFiles "lost" = .error (.load (.missing "lost")) := rfl
  obtain ⟨hwrites, first, hle, fault, hfirst, hending⟩ :=
    ((writes_of_failed_run lostWords [] shopFiles ["work"]).2.2 _ hs).2 1 _ rfl (.description hlost)
  -- the directory can be loaded and built
  obtain ⟨book, shop, schemas, hinputs, hdeclares, -⟩ := exists_shopInputs
  have hload := (List.forall₂_cons.1 (hinputs []).load).1
  obtain ⟨catalog, hgenerate, -⟩ := Catalog.exists_generatedFrom (lostSettings.options 32)
    ((hinputs []).keyed book List.mem_cons_self) hdeclares
  have hbook : (loadAndGenerate shopFiles lostSettings (some "units") (some "book")).outcome =
      .ok catalog := (outcome_loadAndGenerate rfl hload (hinputs []).schema).trans hgenerate
  obtain rfl : first = 1 := by
    refine Nat.le_antisymm hle (Nat.pos_of_ne_zero fun h => ?_)
    subst h
    have hf : (loadAndGenerate shopFiles lostSettings (some "units") (some "book")).outcome =
        .error fault := Option.some.inj hfirst.fails
    rw [hf] at hbook
    cases hbook
  obtain rfl : fault = .load (.missing "lost") := by
    have hf := hfirst.fails
    cases hf
    rfl
  exact ⟨hs, .description hlost, hwrites, hending, hfirst⟩

end Program

end SoapTypes
