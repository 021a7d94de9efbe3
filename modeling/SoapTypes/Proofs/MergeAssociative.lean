import SoapTypes.Proofs.MergedTables

/-!
# Merging is associative

Three catalogs can be merged from the left, from the right or all into the first one. The results
have the same files in the same order and the same entries, whatever the tables hold beside the
files, so they are equal as catalogs and give the same output.

* `Catalog.SameContents` is equality of catalogs up to the order of what is not written in order.
* `Catalog.merge_assoc` is the result.
-/

namespace SoapTypes

namespace Entries

variable {α β : Type}

theorem rel_cases {R : α → β → Prop} {x : Option α} {y : Option β} (h : Option.Rel R x y) :
    (x = none ∧ y = none) ∨ ∃ v w, x = some v ∧ y = some w ∧ R v w := by
  cases h with
  | none => exact .inl ⟨rfl, rfl⟩
  | some h => exact .inr ⟨_, _, rfl, rfl, h⟩

/-- Tables without repeated names agree if they have the same names with equal values under
them. -/
theorem agree_of_rel {same : α → α → Bool} {a b : Entries α} (ha : a.Distinct) (hb : b.Distinct)
    (h : ∀ key, Option.Rel (fun x y => same x y = true) (a.value? key) (b.value? key)) :
    agree same a b = true := by
  have hperm : a.keys.Perm b.keys := by
    rw [List.perm_ext_iff_of_nodup ha hb]
    intro key
    rw [← value?_isSome_iff, ← value?_isSome_iff]
    rcases rel_cases (h key) with ⟨hv, hw⟩ | ⟨v, w, hv, hw, -⟩
    · rw [hv, hw]
    · simp [hv, hw]
  have hl : a.length = b.length := by simpa [keys] using hperm.length_eq
  rw [agree, Bool.and_eq_true, beq_iff_eq, List.all_eq_true]
  refine ⟨hl, fun entry he => ?_⟩
  rcases rel_cases (h entry.1) with ⟨hv, -⟩ | ⟨v, w, hv, hw, hs⟩
  · rw [value?_of_mem ha he] at hv
    cases hv
  · rw [value?_of_mem ha he] at hv
    cases hv
    rw [hw]
    exact hs

/-- Tables with the same values agree, if these are equal to themselves. -/
theorem SameMap.agree {same : α → α → Bool} {a b : Entries α} (h : SameMap a b) (ha : a.Distinct)
    (hb : b.Distinct) (hs : ∀ entry ∈ a, same entry.2 entry.2 = true) :
    Entries.agree same a b = true := by
  refine agree_of_rel ha hb fun key => ?_
  rw [← h key]
  cases hv : a.value? key with
  | none => exact .none
  | some value => exact .some (hs _ (mem_of_value? hv))

theorem agree_self {a : Entries String} (ha : a.Distinct) : agree (· == ·) a a = true :=
  SameMap.agree (fun _ => rfl) ha ha fun _ _ => beq_self_eq_true _

theorem agree_self_tables {a : Entries (Entries String)} (ha : DistinctTables a) :
    agree (agree (· == ·)) a a = true :=
  SameMap.agree (fun _ => rfl) ha.1 ha.1 fun entry he => agree_self (ha.2 entry he)

theorem SameTables.trans {a b c : Entries (Entries α)} (h : SameTables a b)
    (h' : SameTables b c) : SameTables a c := by
  intro key
  rcases rel_cases (h key) with ⟨hv, hw⟩ | ⟨v, w, hv, hw, hs⟩
  · rw [hv, ← hw]
    exact h' key
  · rcases rel_cases (h' key) with ⟨hw', -⟩ | ⟨w', z, hw', hz, hs'⟩
    · rw [hw] at hw'
      cases hw'
    · obtain rfl : w = w' := Option.some.inj (hw.symm.trans hw')
      rw [hv, hz]
      exact .some fun name => (hs name).trans (hs' name)

theorem SameTables.symm {a b : Entries (Entries α)} (h : SameTables a b) : SameTables b a := by
  intro key
  rcases rel_cases (h key) with ⟨hv, hw⟩ | ⟨v, w, hv, hw, hs⟩
  · rw [hv, hw]
    exact .none
  · rw [hv, hw]
    exact .some fun key => (hs key).symm

/-- Tables with the same endpoints agree, if their values are equal to themselves. -/
theorem SameTables.agree {same : α → α → Bool} {inner : α → Prop} {a b : Table α}
    (h : SameTables a b) (ha : Table.Keyed inner a) (hb : Table.Keyed inner b)
    (hs : ∀ value, inner value → same value value = true) :
    Entries.agree (Entries.agree same) a b = true := by
  refine agree_of_rel ha.names hb.names fun service => ?_
  rcases rel_cases (h service) with ⟨hv, hw⟩ | ⟨v, w, hv, hw, hvw⟩
  · rw [hv, hw]
    exact .none
  · rw [hv, hw]
    have hav := mem_of_value? hv
    refine .some (SameMap.agree hvw (ha.entries _ hav) (hb.entries _ (mem_of_value? hw)) ?_)
    exact fun entry he => hs _ (ha.values _ hav entry he)

/-- Tables are equal as maps if they have the same services and endpoints. -/
theorem sameTables_of_at? {a b : Table α}
    (hs : ∀ service, Entries.has a service = true ↔ Entries.has b service = true)
    (h : ∀ service endpoint, a.at? service endpoint = b.at? service endpoint) :
    SameTables a b := by
  intro service
  have hs := hs service
  have hat := h service
  unfold Entries.has at hs
  unfold Table.at? at hat
  cases hv : Entries.value? a service <;> cases hw : Entries.value? b service
  · exact .none
  · simp [hv, hw] at hs
  · simp [hv, hw] at hs
  · simp only [hv, hw, Option.bind_some] at hat
    exact .some hat

theorem SameTables.at? {a b : Table α} (h : SameTables a b) (service endpoint : String) :
    a.at? service endpoint = b.at? service endpoint := by
  unfold Table.at?
  rcases rel_cases (h service) with ⟨hv, hw⟩ | ⟨v, w, hv, hw, hs⟩
  · rw [hv, hw]
  · rw [hv, hw]
    exact hs endpoint

end Entries

namespace Catalog

open Entries

/-! ### Tables of three catalogs -/

section Merges

variable {β : Type} {table : Catalog → Table (Entries β)}
  {unite : Entries β → Entries β → Entries β} {inner : Entries β → Prop}

/-- A catalog has no file for an endpoint since it lacks the service or has the service only, or it
has a file. -/
theorem file_cases (catalog : Catalog) (service endpoint : String) :
    (catalog.files.has service = false ∧ catalog.files.at? service endpoint = none) ∨
      (catalog.files.has service = true ∧ catalog.files.at? service endpoint = none) ∨
      (catalog.files.has service = true ∧
        ∃ file, catalog.files.at? service endpoint = some file) := by
  cases hs : catalog.files.has service with
  | false => exact .inl ⟨rfl, Table.at?_eq_none_of_has hs endpoint⟩
  | true =>
    cases hf : catalog.files.at? service endpoint with
    | none => exact .inr (.inl ⟨rfl, rfl⟩)
    | some file => exact .inr (.inr ⟨rfl, file, rfl⟩)

/-- The entries of an endpoint in a merge of three catalogs. -/
theorem Merges.at?_merge_assoc (h : Merges table unite inner) {a b c : Catalog}
    (ha : Table.Keyed inner (table a)) (hb : Table.Keyed inner (table b))
    (hc : Table.Keyed inner (table c)) (hbf : DistinctTables b.files) (hcf : DistinctTables c.files)
    (service endpoint : String) :
    (table ((a.merge b).merge c)).at? service endpoint =
      (table (a.merge (b.merge c))).at? service endpoint := by
  have hbcf : DistinctTables (b.merge c).files :=
    files_merge b c ▸ distinctTables_uniteNamespaces hbf hcf
  have hassoc := h.assoc (h.inner_endpointOr ha service endpoint)
    (h.inner_endpointOr hb service endpoint) (h.inner_endpointOr hc service endpoint)
  unfold endpointOr at hassoc
  rw [h.at?_merge _ hcf, h.at?_merge _ hbcf]
  simp only [uniteEndpoint, endpointOr, h.at?_merge _ hbf, h.at?_merge _ hcf,
    has_files_merge hbf.1, has_files_merge hcf.1, at?_files_merge hbf, at?_files_merge hcf]
  -- three states for each of the catalogs; only if all have a file is anything united twice
  rcases file_cases a service endpoint with ⟨h1, h2⟩ | ⟨h1, h2⟩ | ⟨h1, f, h2⟩
  all_goals
    rcases file_cases b service endpoint with ⟨h3, h4⟩ | ⟨h3, h4⟩ | ⟨h3, g, h4⟩
    all_goals
      rcases file_cases c service endpoint with ⟨h5, h6⟩ | ⟨h5, h6⟩ | ⟨h5, k, h6⟩
      all_goals simp [h1, h2, h3, h4, h5, h6, hassoc]

/-- The services of a table of a merge of three catalogs. -/
theorem Merges.has_merge_assoc (h : Merges table unite inner) {a b c : Catalog}
    (hbf : DistinctTables b.files) (hcf : DistinctTables c.files) (service : String) :
    Entries.has (table ((a.merge b).merge c)) service = true ↔
      Entries.has (table (a.merge (b.merge c))) service = true := by
  have hbcf : DistinctTables (b.merge c).files :=
    files_merge b c ▸ distinctTables_uniteNamespaces hbf hcf
  rw [h.has_merge _ hcf.1, h.has_merge _ hbf.1, h.has_merge _ hbcf.1]
  simp only [has_files_merge hbf.1, has_files_merge hcf.1, at?_files_merge hcf]
  -- a service without files in `b` has no endpoint there either
  have hnone : ∀ {x : Catalog}, x.files.has service = false →
      ∀ endpoint, x.files.at? service endpoint = none :=
    fun hx endpoint => Table.at?_eq_none_of_has hx endpoint
  cases hsa : a.files.has service <;> cases hsb : b.files.has service <;>
    cases hsc : c.files.has service
  all_goals simp [hnone, hsb, hsc]
  -- with all three of them there it is a matter of whose endpoints come first
  rw [exists_or, or_assoc]
  exact or_congr_right or_comm

theorem Merges.sameTables_merge_assoc (h : Merges table unite inner) {a b c : Catalog}
    (ha : Table.Keyed inner (table a)) (hb : Table.Keyed inner (table b))
    (hc : Table.Keyed inner (table c)) (hbf : DistinctTables b.files)
    (hcf : DistinctTables c.files) :
    SameTables (table ((a.merge b).merge c)) (table (a.merge (b.merge c))) :=
  sameTables_of_at? (h.has_merge_assoc hbf hcf) (h.at?_merge_assoc ha hb hc hbf hcf)

end Merges

/-! ### Catalogs -/

/-- Two catalogs hold the same: the files and the entries of endpoints in the same order, and the
tables of endpoints as maps. -/
structure SameContents (a b : Catalog) : Prop where
  files : a.files = b.files
  methods : SameTables a.methods b.methods
  types : SameTables a.types b.types
  namespaces : SameTables a.namespaces b.namespaces
  warnings : a.warnings = b.warnings

namespace SameContents

theorem trans {a b c : Catalog} (h : SameContents a b) (h' : SameContents b c) :
    SameContents a c :=
  ⟨h.files.trans h'.files, h.methods.trans h'.methods, h.types.trans h'.types,
    h.namespaces.trans h'.namespaces, h.warnings.trans h'.warnings⟩

theorem refl (a : Catalog) : SameContents a a :=
  ⟨rfl, .refl _, .refl _, .refl _, rfl⟩

theorem symm {a b : Catalog} (h : SameContents a b) : SameContents b a :=
  ⟨h.files.symm, h.methods.symm, h.types.symm, h.namespaces.symm, h.warnings.symm⟩

variable {a b : Catalog}

/-- Catalogs that hold the same are equal as catalogs. -/
theorem same (h : SameContents a b) (ha : a.Keyed) (hb : b.Keyed) : a.same b = true := by
  have hfiles : Entries.agree (Entries.agree (· == ·)) a.files b.files = true :=
    h.files ▸ agree_self_tables ha.files
  have hmethods := h.methods.agree ha.methods hb.methods fun _ => agree_self
  have htypes := h.types.agree ha.types hb.types fun _ => agree_self
  have hnamespaces := h.namespaces.agree ha.namespaces hb.namespaces fun _ => agree_self_tables
  rw [Catalog.same, hfiles, hmethods, htypes, hnamespaces]
  rfl

/-- Catalogs that hold the same have the same output. -/
theorem outputs (h : SameContents a b) : a.outputs = b.outputs := by
  have he : a.endpointOutput = b.endpointOutput := by
    funext service endpoint file
    rw [endpointOutput, endpointOutput, h.methods.at?, h.types.at?, h.namespaces.at?]
  rw [Catalog.outputs, Catalog.outputs, h.files, he]

end SameContents

theorem sameContents_merge_assoc {a b c : Catalog} (ha : a.Keyed) (hb : b.Keyed) (hc : c.Keyed) :
    SameContents ((a.merge b).merge c) (a.merge (b.merge c)) where
  files := by
    simp only [files_merge]
    exact uniteNamespaces_assoc ha.files hb.files hc.files
  methods := merges_methods.sameTables_merge_assoc ha.methods hb.methods hc.methods
    hb.files hc.files
  types := merges_types.sameTables_merge_assoc ha.types hb.types hc.types hb.files hc.files
  namespaces := merges_namespaces.sameTables_merge_assoc ha.namespaces hb.namespaces hc.namespaces
    hb.files hc.files
  warnings := by simp only [warnings_merge, List.append_assoc]

/-- **Merging is associative.** Three catalogs of which no table repeats a name, with whatever
beside the files, can be merged from the left, from the right, or all into the first one: the
results are equal as catalogs, have the same warnings, and give the same files with the same blocks
in the same order. -/
theorem merge_assoc {a b c : Catalog} (ha : a.Keyed) (hb : b.Keyed) (hc : c.Keyed) :
    ∀ x ∈ [(a.merge b).merge c, a.merge (b.merge c), a.mergeAll [b, c]],
      ∀ y ∈ [(a.merge b).merge c, a.merge (b.merge c), a.mergeAll [b, c]],
        x.same y = true ∧ x.warnings = y.warnings ∧ x.outputs = y.outputs := by
  have hassoc := sameContents_merge_assoc ha hb hc
  have hall : a.mergeAll [b, c] = (a.merge b).merge c := rfl
  -- the catalogs are two, which hold the same
  have hcontents : ∀ x ∈ [(a.merge b).merge c, a.merge (b.merge c), a.mergeAll [b, c]],
      SameContents x (a.merge (b.merge c)) ∧ x.Keyed := by
    intro x hx
    simp only [hall, List.mem_cons, List.not_mem_nil, or_false] at hx
    rcases hx with rfl | rfl | rfl
    · exact ⟨hassoc, (ha.merge hb).merge hc⟩
    · exact ⟨.refl _, ha.merge (hb.merge hc)⟩
    · exact ⟨hassoc, (ha.merge hb).merge hc⟩
  intro x hx y hy
  obtain ⟨hx, hkx⟩ := hcontents x hx
  obtain ⟨hy, hky⟩ := hcontents y hy
  have hxy := hx.trans hy.symm
  exact ⟨hxy.same hkx hky, hxy.warnings, hxy.outputs⟩

/-- Catalogs with entries for services and endpoints that they have no files for. -/
theorem merge_assoc_beside_files :
    let a : Catalog := {
      files := [("Directory", [("Book", "Directory/Book")])]
      types := [("Stock", [("Shelf", [("IFindInput", "string")])])]
      warnings := ["first"] }
    let b : Catalog := {
      files := [("Directory", []), ("Stock", [("Shelf", "Stock/Shelf")])]
      methods := [("Directory", [("Book", [("Find", "old")])])]
      namespaces := [("Stock", [("Shelf", [("ShelfTypes", [("unit", "old"), ("size", "old")])])])] }
    let c : Catalog := {
      files := [("Stock", [("Shelf", "shelf"), ("Box", "box")]), ("Directory", [("Book", "book")])]
      methods := [("Stock", [("Shelf", [("Count", "new")])])]
      namespaces := [("Stock", [("Shelf", [("ShelfTypes", [("unit", "new")])])])]
      warnings := ["second"] }
    ((a.merge b).merge c).same (a.merge (b.merge c)) = true ∧
      ((a.merge b).merge c).warnings = (a.merge (b.merge c)).warnings ∧
      ((a.merge b).merge c).outputs = (a.merge (b.merge c)).outputs := by
  intro a b c
  have ha : a.Keyed := by
    constructor <;> simp [a, Table.keyed_iff, distinctTables_iff, Entries.Distinct]
  have hb : b.Keyed := by
    constructor <;> simp [b, Table.keyed_iff, distinctTables_iff, Entries.Distinct]
  have hc : c.Keyed := by
    constructor <;> simp [c, Table.keyed_iff, distinctTables_iff, Entries.Distinct]
  exact merge_assoc ha hb hc _ List.mem_cons_self _ (List.mem_cons_of_mem _ List.mem_cons_self)

end Catalog

end SoapTypes
