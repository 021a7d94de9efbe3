import SoapTypes.Program
import SoapTypes.Proofs.CheckedSchemas
import SoapTypes.Proofs.GeneratedCatalogs

/-!
# Several descriptions in one run

A run makes a catalog of each description and merges them. The schema is loaded with the first
description only, and with it the names of its enumerations. So an endpoint comes out as if its
description stood alone with the schema, except that the later descriptions have to do without the
enumerations of the schema.

* `Program.exists_parts` takes a run apart into the catalogs of its descriptions.
* `Program.catalog_as_alone`: where the enumerations of the schema make no difference to the later
  descriptions, each endpoint is as if its description stood alone.
* `Program.catalog_not_as_alone`: where they do, it can be different.
-/

namespace SoapTypes

/-- The labels of all leaves of a description, each with the namespace of its types. -/
def Description.leaves (description : Description) : List (Option String × String) :=
  description.flatMap fun service => service.2.flatMap fun endpoint => endpoint.2.leaves

namespace Program

open Catalog

/-! ### The parts of a run -/

/-- A given path leads to a description. -/
def LoadsTo (files : Files) (given : Given) (description : Description) : Prop :=
  ∃ path, given = some path ∧ Description.load files path = .ok description

/-- The inputs of a run with a limit on the passes: descriptions that have no endpoint in common and
nothing to do with the common service, and a schema. -/
structure Inputs (files : Files) (settings : Settings) (limit : Int)
    (descriptions : List Description) (schemas : Schemas) : Prop where
  limit : settings.maxPasses = some limit
  load : List.Forall₂ (LoadsTo files) settings.descriptions descriptions
  schema : Schemas.load files settings.schema = .ok schemas
  keyed : ∀ description ∈ descriptions, description.Keyed
  noCommon : ∀ description ∈ descriptions, Entries.has description commonService = false
  apart : descriptions.Pairwise fun description other => ∀ service endpoint,
    (Table.at? description service endpoint).isSome = true →
      Table.at? other service endpoint = none

section Run

variable {files : Files} {settings : Settings} {limit : Int}

theorem Inputs.ne_commonService {descriptions : List Description} {schemas : Schemas}
    (h : Inputs files settings limit descriptions schemas) {description : Description}
    (hd : description ∈ descriptions) {service endpoint : String}
    (hat : (Table.at? description service endpoint).isSome = true) : service ≠ commonService := by
  rintro rfl
  have hhas := Table.has_of_at? hat
  rw [h.noCommon description hd] at hhas
  cases hhas

theorem outcome_loadAndGenerate (hl : settings.maxPasses = some limit) {given : Given}
    {description : Description} (hd : LoadsTo files given description)
    {schema : Option String} {schemas : Schemas} (hs : Schemas.load files schema = .ok schemas) :
    (loadAndGenerate files settings schema given).outcome =
      (Catalog.generate (settings.options limit) description schemas).outcome := by
  obtain ⟨path, rfl, hd⟩ := hd
  unfold loadAndGenerate
  simp only [Traced.outcome_bind, Traced.ofExcept, hd, hs]
  show (generate settings description schemas).outcome = _
  rw [generate, hl]

theorem outcome_catalogs_cons (files : Files) (settings : Settings) (schema : Option String)
    (given : Given) (others : List Given) :
    (catalogs files settings schema (given :: others)).outcome =
      (loadAndGenerate files settings schema given).outcome >>= fun first =>
        (catalogs files settings none others).outcome >>= fun others => .ok (first :: others) := by
  rw [catalogs, Traced.outcome_bind]
  simp only [Traced.outcome_bind]
  rfl

/-- The catalogs of the later descriptions are generated without a schema. -/
theorem exists_later_parts (hl : settings.maxPasses = some limit) {given : List Given}
    {descriptions : List Description} (hload : List.Forall₂ (LoadsTo files) given descriptions)
    (hk : ∀ description ∈ descriptions, description.Keyed) :
    ∃ parts : List (Description × Catalog), parts.map Prod.fst = descriptions ∧
      (catalogs files settings none given).outcome = .ok (parts.map Prod.snd) ∧
      ∀ part ∈ parts, GeneratedFrom (withEnums (settings.options limit) []) part.1 part.2 := by
  induction hload with
  | nil => exact ⟨[], rfl, rfl, by simp⟩
  | @cons given description others descriptions hd hload ih =>
    obtain ⟨parts, hfst, hparts, hgen⟩ := ih fun description hm =>
      hk description (List.mem_cons_of_mem _ hm)
    obtain ⟨catalog, hg, hc⟩ := exists_generatedFrom (settings.options limit)
      (hk description List.mem_cons_self) Schemas.declares_nil
    refine ⟨(description, catalog) :: parts, by rw [List.map_cons, hfst], ?_, ?_⟩
    · rw [outcome_catalogs_cons, outcome_loadAndGenerate hl hd rfl, hg, hparts]
      rfl
    · intro part hm
      rcases List.mem_cons.1 hm with rfl | hm
      · exact hc
      · exact hgen part hm

/-- **A run merges the catalogs of its descriptions**: the first one is generated with the schema,
and the later ones are generated without it. -/
theorem exists_parts {description : Description} {descriptions : List Description}
    {schemas : Schemas} (h : Inputs files settings limit (description :: descriptions) schemas)
    {enums : KnownEnums} (he : schemas.Declares enums) :
    ∃ (first : Catalog) (parts : List (Description × Catalog)),
      parts.map Prod.fst = descriptions ∧
      (Catalog.generate (settings.options limit) description schemas).outcome = .ok first ∧
      (catalog files settings).outcome = .ok (first.mergeAll (parts.map Prod.snd)) ∧
      GeneratedFrom (withEnums (settings.options limit) enums) description first ∧
      ∀ part ∈ parts, GeneratedFrom (withEnums (settings.options limit) []) part.1 part.2 := by
  obtain ⟨first, hg, hc⟩ := exists_generatedFrom (settings.options limit)
    (h.keyed description List.mem_cons_self) he
  have hload := h.load
  cases hgiven : settings.descriptions with
  | nil =>
    rw [hgiven] at hload
    cases hload
  | cons given others =>
    rw [hgiven] at hload
    obtain ⟨hd, hload⟩ := List.forall₂_cons.1 hload
    obtain ⟨parts, hfst, hparts, hgen⟩ := exists_later_parts h.limit hload fun other hm =>
      h.keyed other (List.mem_cons_of_mem _ hm)
    refine ⟨first, parts, hfst, hg, ?_, hc, hgen⟩
    rw [catalog, Traced.outcome_bind, hgiven, outcome_catalogs_cons,
      outcome_loadAndGenerate h.limit hd h.schema, hg, hparts]
    rfl

/-- A run that succeeds has a schema that gives what it has to. -/
theorem declares_of_catalog {description : Description} {descriptions : List Description}
    {schemas : Schemas} (h : Inputs files settings limit (description :: descriptions) schemas)
    {merged : Catalog} (hm : (catalog files settings).outcome = .ok merged) :
    ∃ enums, schemas.Declares enums := by
  have hload := h.load
  cases hgiven : settings.descriptions with
  | nil =>
    rw [hgiven] at hload
    cases hload
  | cons given others =>
    rw [hgiven] at hload
    obtain ⟨hd, -⟩ := List.forall₂_cons.1 hload
    rw [catalog, Traced.outcome_bind, hgiven, outcome_catalogs_cons,
      outcome_loadAndGenerate h.limit hd h.schema] at hm
    obtain ⟨catalogs, hc, -⟩ := exists_of_bind_eq_ok hm
    obtain ⟨first, hf, -⟩ := exists_of_bind_eq_ok hc
    exact declares_of_generate hf

/-- **Each part of a run is in the merged catalog as it was generated.** -/
theorem asBefore_of_parts {first : Description × Catalog} {parts : List (Description × Catalog)}
    (hgen : ∀ part ∈ first :: parts, ∃ options, GeneratedFrom options part.1 part.2)
    (hapart : ((first :: parts).map Prod.fst).Pairwise fun description other =>
      ∀ service endpoint, (Table.at? description service endpoint).isSome = true →
        Table.at? other service endpoint = none)
    {service endpoint : String} (hs : service ≠ commonService) {part : Description × Catalog}
    (hp : part ∈ first :: parts) (hat : (Table.at? part.1 service endpoint).isSome = true) :
    AsBefore service endpoint part.2 (first.2.mergeAll (parts.map Prod.snd)) := by
  have hfile : ∀ part ∈ first :: parts, (part.2.files.at? service endpoint).isSome =
      (Table.at? part.1 service endpoint).isSome := by
    intro part hm
    obtain ⟨options, hg⟩ := hgen part hm
    exact hg.isSome_file hs endpoint
  refine asBefore_mergeAll ?_ ?_ (List.mem_map_of_mem hp : part.2 ∈ (first :: parts).map Prod.snd)
    (by rw [hfile part hp, hat])
  · intro catalog hm
    have hsnd : catalog ∈ (first :: parts).map Prod.snd := hm
    obtain ⟨part, hpart, rfl⟩ := List.mem_map.1 hsnd
    obtain ⟨options, hg⟩ := hgen part hpart
    exact ⟨hg.alignedAt hs endpoint, hg.keyed.files⟩
  · -- of two descriptions at most one has the endpoint, and so it is with the files
    rw [← List.map_cons, List.pairwise_map]
    refine (List.pairwise_map.1 hapart).imp_of_mem fun {part other} hm hm' hno => ?_
    have hf := hfile part hm
    have hf' := hfile other hm'
    cases hv : Table.at? part.1 service endpoint with
    | none =>
      rw [hv] at hf
      exact .inl (by simpa using hf)
    | some operations =>
      rw [hno service endpoint (by rw [hv]; rfl)] at hf'
      exact .inr (by simpa using hf')

/-- A run yields a catalog in which each endpoint is as it was generated from its description. -/
theorem exists_merged {description : Description} {descriptions : List Description}
    {schemas : Schemas} (h : Inputs files settings limit (description :: descriptions) schemas)
    {enums : KnownEnums} (he : schemas.Declares enums) :
    ∃ (first : Catalog) (parts : List (Description × Catalog)) (merged : Catalog),
      parts.map Prod.fst = descriptions ∧
      (Catalog.generate (settings.options limit) description schemas).outcome = .ok first ∧
      (catalog files settings).outcome = .ok merged ∧
      (∀ part ∈ parts, GeneratedFrom (withEnums (settings.options limit) []) part.1 part.2) ∧
      ∀ part ∈ (description, first) :: parts, ∀ service endpoint,
        (Table.at? part.1 service endpoint).isSome = true →
          AsBefore service endpoint part.2 merged := by
  obtain ⟨first, parts, rfl, hfirst, hm, hgen, hgens⟩ := exists_parts h he
  refine ⟨first, parts, _, rfl, hfirst, hm, hgens, fun part hp service endpoint hat => ?_⟩
  have hd : part.1 ∈ description :: parts.map Prod.fst :=
    (List.mem_map_of_mem hp : part.1 ∈ ((description, first) :: parts).map Prod.fst)
  have hall : ∀ other ∈ (description, first) :: parts,
      ∃ options, GeneratedFrom options other.1 other.2 := by
    intro other ho
    rcases List.mem_cons.1 ho with rfl | ho
    · exact ⟨_, hgen⟩
    · exact ⟨_, hgens other ho⟩
  exact asBefore_of_parts hall h.apart (h.ne_commonService hd hat) hp hat

end Run

/-! ### One endpoint of a run -/

/-- The leaves of the endpoints of a description are leaves of the description. -/
theorem mem_leaves {description : Description} {service endpoint : String} {operations : Operations}
    (hat : Table.at? description service endpoint = some operations) {leaf : Option String × String}
    (hl : leaf ∈ operations.leaves) : leaf ∈ description.leaves := by
  obtain ⟨endpoints, hs, he⟩ := Option.bind_eq_some_iff.1 hat
  exact List.mem_flatMap.2 ⟨_, Entries.mem_of_value? hs,
    List.mem_flatMap.2 ⟨_, Entries.mem_of_value? he, hl⟩⟩

/-- **The place on the command line.** In a run over descriptions that have no endpoint in common
and no common service, let the enumerations of the schema make no difference to the leaves of the
later descriptions. Then the run yields a catalog exactly if any description does alone with the
schema, and for each endpoint of the description both catalogs have the same types, methods,
namespaces and file. -/
theorem catalog_as_alone {files : Files} {settings : Settings} {limit : Int}
    {descriptions : List Description} {schemas : Schemas}
    (h : Inputs files settings limit descriptions schemas)
    (hi : ∀ enums, schemas.enumNames = .ok enums → ∀ description ∈ descriptions.tail,
      ∀ leaf ∈ description.leaves, Shape.Indifferent settings.known enums leaf) :
    ∀ description ∈ descriptions,
      ((∃ merged, (catalog files settings).outcome = .ok merged) ↔
        ∃ alone, (Catalog.generate (settings.options limit) description schemas).outcome =
          .ok alone) ∧
      ∀ merged alone, (catalog files settings).outcome = .ok merged →
        (Catalog.generate (settings.options limit) description schemas).outcome = .ok alone →
        ∀ service endpoint, (Table.at? description service endpoint).isSome = true →
          AsBefore service endpoint alone merged := by
  intro description hd
  obtain ⟨first, others, rfl⟩ := List.exists_cons_of_ne_nil (List.ne_nil_of_mem hd)
  refine ⟨⟨?_, ?_⟩, ?_⟩
  · rintro ⟨merged, hm⟩
    obtain ⟨enums, he⟩ := declares_of_catalog h hm
    obtain ⟨alone, ha, -⟩ := exists_generatedFrom (settings.options limit) (h.keyed _ hd) he
    exact ⟨alone, ha⟩
  · rintro ⟨alone, ha⟩
    obtain ⟨enums, he⟩ := declares_of_generate ha
    obtain ⟨_, _, merged, -, -, hm, -⟩ := exists_merged h he
    exact ⟨merged, hm⟩
  · intro merged alone hm ha service endpoint hat
    obtain ⟨enums, he⟩ := declares_of_generate ha
    obtain ⟨generated, parts, _, rfl, hfirst, hm', hgens, has⟩ := exists_merged h he
    rw [hm, Except.ok.injEq] at hm'
    subst hm'
    obtain ⟨operations, hops⟩ := Option.isSome_iff_exists.1 hat
    have hs := h.ne_commonService hd hat
    have hk := h.keyed description hd
    rcases List.mem_cons.1 hd with rfl | hd
    · -- the first description has the schema in both cases
      rw [ha, Except.ok.injEq] at hfirst
      subst hfirst
      exact has _ List.mem_cons_self service endpoint hat
    · -- a later one lacks the enumerations, which make no difference to its leaves
      obtain ⟨part, hp, rfl⟩ := List.mem_map.1 hd
      obtain ⟨alone', ha', halone⟩ := exists_generatedFrom (settings.options limit) hk he
      rw [ha, Except.ok.injEq] at ha'
      subst ha'
      refine (halone.asBefore (hgens part hp) rfl rfl hs hops fun leaf hl array => ?_).trans
        (has part (List.mem_cons_of_mem _ hp) service endpoint hat)
      have hleaf := hi enums he.enumNames part.1 hd leaf (mem_leaves hops hl)
      have halike := Shape.leafAlike_of_indifferent hleaf array
      show Shape.resolveLeaf (settings.known ++ enums) _ _ _ =
        Shape.resolveLeaf (settings.known ++ []) _ _ _
      rw [List.append_nil, halike]

/-! ### A shop with units -/

/-- The text of an object, given the texts of its members. -/
def objectText (members : List (String × String)) : String :=
  "\x7b" ++ Text.joinWith "," (members.map fun member => "\"" ++ member.1 ++ "\":" ++ member.2) ++
    "\x7d"

/-- A directory, a shop with a field of type `Unit`, and a schema in which this is an
enumeration. -/
def shopFiles : Files := fun path =>
  let texts := [
    ("book", objectText [("Book", objectText [("Find", objectText [])])]),
    ("shop", objectText [("Shop", objectText [("Shelf", objectText [("Count", objectText [
      ("input", objectText [("targetNamespace", "\"u\""),
        ("unit", "\"Unit|u:Unit|length\"")])])])])]),
    ("units", objectText [("u", objectText [("types", objectText [("Unit", objectText [
      ("name", "\"simpleType\""), ("children", "[" ++ objectText [("name", "\"restriction\""),
        ("$base", "\"string\""), ("children", "[" ++ objectText [("name", "\"enumeration\"")] ++
          "]")] ++ "]")])])])])]
  ((Entries.value? texts path).map fun text => Lookup.file text.toUTF8).getD .missing

/-- A run over the directory and the shop, with the schema. -/
def shopSettings (known : KnownEnums) : Settings where
  descriptions := [some "book", some "shop"]
  schema := some "units"
  outputDirectory := some "out"
  quoting := .asNeeded
  known := known
  maxPasses := some 32
  verbose := false

/-- What is in the files. -/
theorem exists_shopFiles :
    ∃ book shop schemas, Description.load shopFiles "book" = .ok book ∧
      Description.load shopFiles "shop" = .ok shop ∧
      Schemas.load shopFiles (some "units") = .ok schemas ∧
      book.Keyed ∧ shop.Keyed ∧ Entries.keys book = ["Book"] ∧ Entries.keys shop = ["Shop"] ∧
      schemas.enumNames.toOption = some ["u#Unit"] ∧
      schemas.declare.outcome.toOption.isSome = true ∧ schemas.WellNamed ∧
      (Table.at? shop "Shop" "Shelf").isSome = true ∧
      generatedTypes (withEnums {} []) shop "Shop" "Shelf" ≠
        generatedTypes (withEnums {} ["u#Unit"]) shop "Shop" "Shelf" := by
  have h : (do
      let book ← (Description.load shopFiles "book").toOption
      let shop ← (Description.load shopFiles "shop").toOption
      let schemas ← (Schemas.load shopFiles (some "units")).toOption
      some (decide (book.Keyed ∧ shop.Keyed ∧
        Entries.keys book = ["Book"] ∧ Entries.keys shop = ["Shop"] ∧
        schemas.enumNames.toOption = some ["u#Unit"] ∧
        schemas.declare.outcome.toOption.isSome = true ∧ schemas.WellNamed ∧
        (Table.at? shop "Shop" "Shelf").isSome = true ∧
        generatedTypes (withEnums {} []) shop "Shop" "Shelf" ≠
          generatedTypes (withEnums {} ["u#Unit"]) shop "Shop" "Shelf"))) = some true := by
    decide +kernel
  obtain ⟨book, hb, h⟩ := Option.bind_eq_some_iff.1 h
  obtain ⟨shop, hs, h⟩ := Option.bind_eq_some_iff.1 h
  obtain ⟨schemas, hu, h⟩ := Option.bind_eq_some_iff.1 h
  exact ⟨book, shop, schemas, toOption_eq_some_iff.1 hb, toOption_eq_some_iff.1 hs,
    toOption_eq_some_iff.1 hu, of_decide_eq_true (Option.some.inj h)⟩

/-- The shop has an endpoint that the enumeration makes a difference to. -/
theorem exists_shopInputs :
    ∃ book shop schemas, (∀ known, Inputs shopFiles (shopSettings known) 32 [book, shop] schemas) ∧
      schemas.Declares ["u#Unit"] ∧ (Table.at? shop "Shop" "Shelf").isSome = true ∧
      generatedTypes (withEnums {} []) shop "Shop" "Shelf" ≠
        generatedTypes (withEnums {} ["u#Unit"]) shop "Shop" "Shelf" := by
  obtain ⟨book, shop, schemas, hb, hs, hu, hkb, hks, hnb, hns, hen, hde, -, hat, hne⟩ :=
    exists_shopFiles
  have hnoBook : Entries.has shop "Book" = false := Entries.has_eq_false (by rw [hns]; decide)
  refine ⟨book, shop, schemas, fun known => ⟨rfl, ?_, hu, ?_, ?_, ?_⟩, ⟨?_, .inr ?_⟩, hat, hne⟩
  · exact .cons ⟨"book", rfl, hb⟩ (.cons ⟨"shop", rfl, hs⟩ .nil)
  · simp [hkb, hks]
  · intro description hd
    rcases List.mem_pair.1 hd with rfl | rfl
    · exact Entries.has_eq_false (by rw [hnb]; decide)
    · exact Entries.has_eq_false (by rw [hns]; decide)
  · -- an endpoint of the directory is in its only service, which the shop does not have
    refine List.pairwise_pair.2 fun service endpoint hat => ?_
    have hbook := Entries.has_eq_true_iff.1 (Table.has_of_at? hat)
    rw [hnb, List.mem_singleton] at hbook
    subst hbook
    exact Table.at?_eq_none_of_has hnoBook endpoint
  · exact toOption_eq_some_iff.1 hen
  · obtain ⟨text, ht⟩ := Option.isSome_iff_exists.1 hde
    exact ⟨text, toOption_eq_some_iff.1 ht⟩

/-- With the enumeration among the names that are given, the endpoint of the shop is as if the shop
stood alone. -/
theorem catalog_as_alone_shop :
    ∃ book shop schemas, Inputs shopFiles (shopSettings ["u#Unit"]) 32 [book, shop] schemas ∧
      ∃ merged alone,
        (catalog shopFiles (shopSettings ["u#Unit"])).outcome = .ok merged ∧
        (Catalog.generate ((shopSettings ["u#Unit"]).options 32) shop schemas).outcome =
          .ok alone ∧
        AsBefore "Shop" "Shelf" alone merged := by
  obtain ⟨book, shop, schemas, h, hde, hat, -⟩ := exists_shopInputs
  have hshop := catalog_as_alone (h ["u#Unit"]) (fun enums he description _ leaf _ => by
    rw [hde.enumNames, Except.ok.injEq] at he
    subst he
    exact .inl) shop (by simp)
  obtain ⟨alone, ha, -⟩ := exists_generatedFrom ((shopSettings ["u#Unit"]).options 32)
    ((h ["u#Unit"]).keyed shop (by simp)) hde
  obtain ⟨merged, hm⟩ := hshop.1.2 ⟨alone, ha⟩
  exact ⟨book, shop, schemas, h _, merged, alone, hm, ha,
    hshop.2 merged alone hm ha "Shop" "Shelf" hat⟩

/-- **Without it the types are not those of the shop alone**, which knows the enumeration from the
schema. -/
theorem catalog_not_as_alone :
    ∃ book shop schemas, Inputs shopFiles (shopSettings []) 32 [book, shop] schemas ∧
      ∃ merged alone,
        (catalog shopFiles (shopSettings [])).outcome = .ok merged ∧
        (Catalog.generate ((shopSettings []).options 32) shop schemas).outcome = .ok alone ∧
        (Table.at? shop "Shop" "Shelf").isSome = true ∧
        merged.types.at? "Shop" "Shelf" ≠ alone.types.at? "Shop" "Shelf" := by
  obtain ⟨book, shop, schemas, h, hde, hat, hne⟩ := exists_shopInputs
  have hs : "Shop" ≠ commonService := by decide
  obtain ⟨alone, ha, halone⟩ := exists_generatedFrom ((shopSettings []).options 32)
    ((h []).keyed shop (by simp)) hde
  obtain ⟨first, parts, merged, hfst, -, hm, hgens, has⟩ := exists_merged (h []) hde
  obtain ⟨part, hp, rfl⟩ := List.mem_map.1 (hfst ▸ List.mem_singleton_self shop)
  refine ⟨book, part.1, schemas, h [], merged, alone, hm, ha, hat, ?_⟩
  rw [← (has part (List.mem_cons_of_mem _ hp) _ _ hat).types, (hgens part hp).types_eq hs,
    halone.types_eq hs]
  exact hne

end Program

end SoapTypes
