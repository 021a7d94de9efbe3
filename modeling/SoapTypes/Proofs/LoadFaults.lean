import SoapTypes.Proofs.SeveralDescriptions

/-!
# How loading ends

Whatever is in the files of a description and a schema, loading them and generating a catalog is
meant to end with a result or with a load fault, which says what is wrong with which file. Two
things keep it from that: a file that is not in UTF-8, and a tag, a name or a type in the schema
that is no text. A string that writes half of a surrogate pair is a text here, with U+FFFD in it.

* `Documented` is the end that is meant.
* `Program.loads_as_documented`: when the loads and the generation end so; the work on a description
  that was loaded never fails.
* `Program.not_loads_as_documented`: contents for which they do not.
-/

namespace SoapTypes

/-- The end of loading that is documented: a result or a load fault. -/
def Documented {α : Type} (outcome : Except Fault α) : Prop :=
  (∃ value, outcome = .ok value) ∨ ∃ fault, outcome = .error (.load fault)

namespace Documented

variable {α β : Type}

theorem ok (value : α) : Documented (.ok value : Except Fault α) := .inl ⟨value, rfl⟩

theorem load (fault : LoadFault) : Documented (.error (.load fault) : Except Fault α) :=
  .inr ⟨fault, rfl⟩

theorem bind_iff {x : Except Fault α} {f : α → Except Fault β} :
    Documented (x >>= f) ↔ Documented x ∧ ∀ a, x = .ok a → Documented (f a) := by
  cases x with
  | ok a =>
    refine ⟨fun h => ⟨ok a, fun b hb => ?_⟩, fun h => h.2 a rfl⟩
    cases hb
    exact h
  | error fault =>
    constructor
    · rintro (⟨value, h⟩ | ⟨known, h⟩)
      · cases h
      · cases h
        exact ⟨load known, fun a ha => by cases ha⟩
    · rintro ⟨⟨value, h⟩ | ⟨known, h⟩, -⟩
      · cases h
      · cases h
        exact load known

end Documented

/-- A computation that can fail only at a value of the wrong kind ends as documented exactly if it
succeeds. -/
theorem SucceedsIff.documented_iff {α : Type} {x : Except Fault α} {p : Prop}
    (h : SucceedsIff x p) : Documented x ↔ p := by
  rcases h with ⟨hp, value, rfl⟩ | ⟨hp, rfl⟩
  · exact iff_of_true (.ok value) hp
  · refine iff_of_false ?_ hp
    rintro (⟨value, h⟩ | ⟨fault, h⟩) <;> cases h

/-! ### Documents -/

/-- If a path leads to a file, the file is a text. -/
def ReadsAsText (files : Files) (path : String) : Prop :=
  ∀ bytes, files path = .file bytes → (String.fromUTF8? bytes).isSome = true

namespace Document

/-- A document that is a text is loaded, or it is said why not. -/
theorem documented_load_iff (files : Files) (path : String) :
    Documented (load files path) ↔ ReadsAsText files path := by
  unfold load ReadsAsText
  cases files path with
  | missing => exact iff_of_true (.load _) fun _ h => by cases h
  | directory => exact iff_of_true (.load _) fun _ h => by cases h
  | file bytes =>
    cases hb : String.fromUTF8? bytes with
    | none =>
      refine iff_of_false ?_ fun h => ?_
      · rintro (⟨value, h⟩ | ⟨fault, h⟩) <;> simp [hb] at h
      · simpa [hb] using h bytes rfl
    | some text =>
      refine iff_of_true ?_ fun bytes' h => ?_
      · dsimp only
        rw [hb]
        dsimp only
        split
        · exact .load _
        · exact .ok _
      · cases h
        rw [hb]
        rfl

theorem documented_checked {α : Type} (path : String) (outcome : Except Misplaced α) :
    Documented (checked path outcome) := by
  cases outcome with
  | error misplaced => exact .load _
  | ok value => exact .ok value

theorem checked_eq_ok {α : Type} {path : String} {outcome : Except Misplaced α} {value : α} :
    checked path outcome = .ok value ↔ outcome = .ok value := by
  cases outcome <;> simp [checked]

end Document

theorem Description.documented_load_iff (files : Files) (path : String) :
    Documented (Description.load files path) ↔ ReadsAsText files path := by
  rw [Description.load, Documented.bind_iff, Document.documented_load_iff]
  exact and_iff_left fun document _ => Document.documented_checked path _

/-- If there is a schema, its document is a text, and if that passes the check, the tags of its
nodes are texts. -/
def SchemaReads (files : Files) (schema : Option String) : Prop :=
  ∀ path, schema.bind Text.nonempty? = some path → ReadsAsText files path ∧
    ∀ document, Document.load files path = .ok document → Schemas.check document = .ok () →
      ∀ written ∈ Schemas.nodesInDocument document, Schema.Node.TextTag written

theorem Schemas.documented_load_iff (files : Files) (schema : Option String) :
    Documented (Schemas.load files schema) ↔ SchemaReads files schema := by
  unfold Schemas.load SchemaReads
  cases schema.bind Text.nonempty? with
  | none => exact iff_of_true (.ok _) fun _ h => by cases h
  | some path =>
    simp only [Documented.bind_iff, Document.documented_load_iff, Document.documented_checked,
      Document.checked_eq_ok, true_and, Option.some.injEq]
    constructor
    · rintro ⟨hr, h⟩ _ rfl
      refine ⟨hr, fun document hl hc => ?_⟩
      exact (succeedsIff_ofMembers hc).documented_iff.1 (h document hl () hc)
    · intro h
      obtain ⟨hr, h⟩ := h path rfl
      refine ⟨hr, fun document hl _ hc => ?_⟩
      exact (succeedsIff_ofMembers hc).documented_iff.2 (h document hl hc)

namespace Program

open Catalog

/-! ### A catalog -/

/-- A schema that is well named gives what it has to. -/
theorem exists_declares {schemas : Schemas} (h : schemas.WellNamed) :
    ∃ enums, schemas.Declares enums := by
  obtain ⟨enums, he⟩ := Schemas.exists_enumNames h
  exact ⟨enums, he, .inr (Schemas.exists_declare h)⟩

theorem documented_loadAndGenerate {files : Files} {settings : Settings} {limit : Int}
    (hl : settings.maxPasses = some limit) {path : String} (hd : ReadsAsText files path)
    {schema : Option String} (hs : SchemaReads files schema)
    (hn : ∀ schemas, Schemas.load files schema = .ok schemas → schemas.WellNamed) :
    Documented (loadAndGenerate files settings schema (some path)).outcome := by
  rw [loadAndGenerate, Traced.outcome_bind, Documented.bind_iff]
  refine ⟨(Description.documented_load_iff files path).2 hd, fun description _ => ?_⟩
  rw [Traced.outcome_bind, Documented.bind_iff]
  refine ⟨(Schemas.documented_load_iff files schema).2 hs, fun schemas hload => ?_⟩
  obtain ⟨enums, he⟩ := exists_declares (hn schemas hload)
  obtain ⟨catalog, hg⟩ := exists_generate (settings.options limit) description he
  rw [generate, hl]
  exact .inl ⟨catalog, hg⟩

/-- **When loading ends as documented.** With any contents of the files, a description is loaded or
there is a load fault exactly if its file is a text, and so it is with a schema exactly if moreover
the tags of a document that passes its check are texts. The generation of a catalog ends so if
moreover the names and types that the schema gives are texts. Only the values of the schema can stop
the work that comes after the checks: a description is always built, the nodes of a schema are read
exactly if their tags are texts, and they are declared if they are well named. -/
theorem loads_as_documented (files : Files) (settings : Settings) {limit : Int}
    (hl : settings.maxPasses = some limit) (path : String) (schema : Option String) :
    (Documented (Description.load files path) ↔ ReadsAsText files path) ∧
    (Documented (Schemas.load files schema) ↔ SchemaReads files schema) ∧
    (ReadsAsText files path → SchemaReads files schema →
      (∀ schemas, Schemas.load files schema = .ok schemas → schemas.WellNamed) →
      Documented (loadAndGenerate files settings schema (some path)).outcome) ∧
    (∀ (options : Options) (description : Description),
      ∃ catalog, (build options description empty).outcome = .ok catalog) ∧
    ∀ document, Schemas.check document = .ok () →
      ((∃ schemas, Schemas.ofMembers document = .ok schemas) ↔
        ∀ written ∈ Schemas.nodesInDocument document, Schema.Node.TextTag written) ∧
      ∀ schemas, Schemas.ofMembers document = .ok schemas → schemas.WellNamed →
        (∃ enums, schemas.enumNames = .ok enums) ∧
        ∃ text, schemas.declare.outcome = .ok text := by
  refine ⟨Description.documented_load_iff files path, Schemas.documented_load_iff files schema,
    fun hd hs hn => documented_loadAndGenerate hl hd hs hn, fun options description => ?_,
    fun document hc => ⟨(Schemas.succeedsIff_ofMembers hc).exists_iff, fun schemas _ hn => ?_⟩⟩
  · obtain ⟨catalog, hb, -⟩ := inStep_empty.build options description
    exact ⟨catalog, hb⟩
  · exact ⟨Schemas.exists_enumNames hn, Schemas.exists_declare hn⟩

/-- The shop and the schema with its unit are loaded, and a catalog is generated from them. -/
theorem loads_as_documented_shop :
    Documented
      (loadAndGenerate shopFiles (shopSettings []) (some "units") (some "shop")).outcome := by
  obtain ⟨book, shop, schemas, -, hshop, hunits, -, -, -, -, -, -, hnamed, -⟩ := exists_shopFiles
  obtain ⟨hdescription, hschema, hgenerate, -⟩ :=
    loads_as_documented shopFiles (shopSettings []) rfl "shop" (some "units")
  rw [hshop] at hdescription
  rw [hunits] at hschema hgenerate
  refine hgenerate (hdescription.1 (.ok shop)) (hschema.1 (.ok schemas)) fun schemas' hs => ?_
  cases hs
  exact hnamed

/-- A schema with one node. -/
def oneNode (members : List (String × Json)) : List (String × Json) :=
  [("urn:shop", .object [("complexTypes", .object [("Unit", .object members)])])]

/-- **Not every content is loaded as documented.** A file need not be a text. The check of a schema
passes a tag that is no text, which cannot be read, and a name that is none, which cannot be
declared. -/
theorem not_loads_as_documented :
    let files : Files := fun _ => .file ⟨#[0xff]⟩
    let tagged := oneNode [("kind", .integer 5)]
    let named := oneNode [("kind", .text "complexType"), ("$name", .integer 5)]
    Description.load files "d.json" = .error (.notUtf8 "d.json") ∧
      ¬ Documented (Description.load files "d.json") ∧
      Schemas.check tagged = .ok () ∧ Schemas.ofMembers tagged = .error .wrongKind ∧
      Schemas.check named = .ok () ∧ ∃ schemas, Schemas.ofMembers named = .ok schemas ∧
        schemas.declare.outcome = .error .nameNotText := by
  intro files tagged named
  have hnone : String.fromUTF8? ⟨#[0xff]⟩ = none := by decide +kernel
  have hload : Description.load files "d.json" = .error (.notUtf8 "d.json") := by
    have hdocument : Document.load files "d.json" = .error (.notUtf8 "d.json") := by
      simp [Document.load, files, hnone]
    rw [Description.load, hdocument]
    rfl
  refine ⟨hload, ?_, rfl, rfl, rfl, _, rfl, rfl⟩
  rw [hload]
  rintro (⟨value, h⟩ | ⟨fault, h⟩) <;> cases h

end Program

end SoapTypes
