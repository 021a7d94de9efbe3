import SoapTypes.Proofs.MergedTables

/-!
# A merge keeps the latest entries

Catalogs that are merged one after the other give the union of their tables, entry by entry: a name
stands where it came first, with the value that came last. This holds for services and their
endpoints, for the methods, types and namespaces of an endpoint, and for the declarations of a
namespace, if no catalog has entries for an endpoint without a file.

* `Entries.LatestOf` is the union of some tables, `Entries.LatestTables` that of tables of tables.
* `LatestOf.putAll` and `LatestTables.uniteNamespaces`: one more table comes to a union.
* `Catalog.mergeAll_latest` is the result.
-/

namespace SoapTypes

/-! ### Names in the order of their first use -/

theorem addNew_nil_eq_eraseDups (names : List String) : addNew [] names = names.eraseDups := by
  induction names using List.reverseRecOn with
  | nil => rfl
  | append_singleton names name ih =>
    have hone : addNew names.eraseDups [name] =
        names.eraseDups ++ ([name].removeAll names).eraseDups := by
      by_cases hn : name ∈ names
      · simp [addNew, List.removeAll, hn]
      · simp [addNew, List.removeAll, List.eraseDups_cons, hn]
    rw [addNew_append, ih, hone, List.eraseDups_append]

theorem addNew_eraseDups (names more : List String) :
    addNew names.eraseDups more = (names ++ more).eraseDups := by
  rw [← addNew_nil_eq_eraseDups, ← addNew_append, addNew_nil_eq_eraseDups]

theorem eraseDups_eq_self {names : List String} (h : names.Nodup) :
    names.eraseDups = names := by
  induction names with
  | nil => rfl
  | cons name names ih =>
    obtain ⟨hn, h⟩ := List.nodup_cons.1 h
    have hfilter : names.filter (fun other => !other == name) = names := by
      refine List.filter_eq_self.2 fun other ho => ?_
      simpa using fun e : other = name => hn (e ▸ ho)
    rw [List.eraseDups_cons, hfilter, ih h]

namespace Entries

variable {α : Type}

/-! ### Unions of tables -/

/-- The value of a name in the last of some tables that has the name. -/
def latest? (tables : List (Entries α)) (key : String) : Option α :=
  tables.reverse.findSome? fun table => table.value? key

/-- A table is the union of some tables: it has their names in the order in which they came first,
each with the value of the last table that has it. -/
structure LatestOf (tables : List (Entries α)) (union : Entries α) : Prop where
  names : union.keys = (tables.flatMap keys).eraseDups
  values : ∀ key, union.value? key = latest? tables key

/-- The entries of a name in a table of tables, or none. -/
def under (table : Entries (Entries α)) (key : String) : Entries α := (table.value? key).getD []

/-- A table of tables is the union of some others, and under each name stands the union of what the
others have under it. -/
structure LatestTables (tables : List (Entries (Entries α))) (union : Entries (Entries α)) :
    Prop where
  names : union.keys = (tables.flatMap keys).eraseDups
  entries : ∀ key, LatestOf (tables.map fun table => under table key) (under union key)

/-- A table is its union with a blank one in front. -/
theorem uniteWith_nil_left {unite : Option α → α → α} (hnone : ∀ value, unite none value = value)
    {b : Entries α} (hb : b.Distinct) : uniteWith unite [] b = b := by
  have hnil : Entries.Distinct ([] : Entries α) := List.nodup_nil
  refine eq_of_keys_eq (distinct_uniteWith hnil b) ?_ fun key => ?_
  · rw [keys_uniteWith, keys_nil, addNew_nil_eq_eraseDups, eraseDups_eq_self hb]
  · rw [value?_uniteWith hb, value?_nil, Option.or_none]
    cases Entries.value? b key with
    | none => rfl
    | some value => exact congrArg some (hnone value)

theorem putAll_nil_left {b : Entries α} (hb : b.Distinct) : putAll [] b = b := by
  rw [putAll_eq_uniteWith]
  exact uniteWith_nil_left (fun _ => rfl) hb

theorem latestOf_single {a : Entries α} (ha : a.Distinct) : LatestOf [a] a where
  names := by simpa using (eraseDups_eq_self ha).symm
  values key := by
    cases hv : a.value? key with
    | none => simp [latest?, hv]
    | some value => simp [latest?, hv]

/-- One more table comes to a union. -/
theorem LatestOf.putAll {tables : List (Entries α)} {union b : Entries α}
    (h : LatestOf tables union) (hb : b.Distinct) :
    LatestOf (tables ++ [b]) (union.putAll b) where
  names := by
    rw [putAll_eq_uniteWith, keys_uniteWith, h.names, addNew_eraseDups, List.flatMap_append]
    simp
  values key := by
    rw [value?_putAll hb, h.values, latest?, latest?, List.reverse_append]
    cases hv : b.value? key with
    | none => simp [hv]
    | some value => simp [hv]

theorem distinct_under {table : Entries (Entries α)} (h : DistinctTables table) (key : String) :
    (under table key).Distinct := h.getD key

theorem latestTables_single {a : Entries (Entries α)} (ha : DistinctTables a) :
    LatestTables [a] a where
  names := (latestOf_single ha.names).names
  entries key := latestOf_single (distinct_under ha key)

end Entries

namespace Table

variable {α β : Type}

/-- A table has entries only for endpoints that another table has. -/
def Within (table : Table α) (other : Table β) : Prop :=
  ∀ service endpoint, (table.at? service endpoint).isSome = true →
    (other.at? service endpoint).isSome = true

theorem within_of_forall {table : Table α} {other : Table β}
    (h : ∀ service ∈ table, ∀ endpoint ∈ service.2,
      (other.at? service.1 endpoint.1).isSome = true) : table.Within other := by
  intro service endpoint hs
  obtain ⟨value, hv⟩ := Option.isSome_iff_exists.1 hs
  obtain ⟨endpoints, he, hv⟩ := Option.bind_eq_some_iff.1 hv
  exact h _ (Entries.mem_of_value? he) _ (Entries.mem_of_value? hv)

end Table

namespace Catalog

open Entries

/-- What a union of tables of tables has under a name is the union of what they have under it. -/
theorem under_uniteNamespaces (a : Namespaces) {b : Namespaces} (hb : DistinctTables b)
    (key : String) :
    under (uniteNamespaces a b) key = (under a key).putAll (under b key) := by
  rw [under, uniteNamespaces_eq, value?_uniteWith hb.names, under, under]
  cases hvb : Entries.value? b key with
  | none => simp
  | some entries =>
    have hd : Entries.Distinct entries := hb.entries _ (mem_of_value? hvb)
    cases hva : Entries.value? a key with
    | none => simpa [uniteDeclarations] using (putAll_nil_left hd).symm
    | some held => simp [uniteDeclarations]

/-- One more table of tables comes to a union. -/
theorem LatestTables.uniteNamespaces {tables : List Namespaces} {union b : Namespaces}
    (h : LatestTables tables union) (hb : DistinctTables b) :
    LatestTables (tables ++ [b]) (uniteNamespaces union b) where
  names := by
    rw [uniteNamespaces_eq, keys_uniteWith, h.names, addNew_eraseDups, List.flatMap_append]
    simp
  entries key := by
    rw [under_uniteNamespaces union hb, List.map_append]
    exact (h.entries key).putAll (distinct_under hb key)

/-! ### Entries of endpoints with files -/

/-- What a catalog has for an endpoint in the tables beside the files, it has for one with a
file. -/
structure Filed (catalog : Catalog) : Prop where
  methods : catalog.methods.Within catalog.files
  types : catalog.types.Within catalog.files
  namespaces : catalog.namespaces.Within catalog.files

section Merges

variable {β : Type} {table : Catalog → Table (Entries β)}
  {unite : Entries β → Entries β → Entries β} {inner : Entries β → Prop}

/-- A table has nothing for an endpoint without a file. -/
theorem endpointOr_eq_nil {entries : Table (Entries β)} {files : Table String}
    (h : entries.Within files) {service endpoint : String}
    (hf : files.at? service endpoint = none) : endpointOr entries service endpoint = [] := by
  have h := h service endpoint
  rw [hf] at h
  cases hv : entries.at? service endpoint with
  | none => rw [endpointOr, hv, Option.getD_none]
  | some value => simp [hv] at h

/-- In a merge stands for an endpoint the union of what both catalogs have for it. -/
theorem Merges.endpointOr_merge (h : Merges table unite inner) {a b : Catalog}
    (hleft : ∀ entries, inner entries → unite [] entries = entries)
    (hright : ∀ entries, unite entries [] = entries)
    (ha : (table a).Within a.files) (hb : (table b).Within b.files)
    (hkeyed : Table.Keyed inner (table b)) (hfiles : DistinctTables b.files)
    (service endpoint : String) :
    endpointOr (table (a.merge b)) service endpoint =
      unite (endpointOr (table a) service endpoint) (endpointOr (table b) service endpoint) := by
  have hi : inner (endpointOr (table b) service endpoint) := h.inner_endpointOr hkeyed _ _
  rw [endpointOr, h.at?_merge a hfiles]
  split
  · rename_i hnew
    -- the first catalog lacks the service
    have hnone := endpointOr_eq_nil ha (Table.at?_eq_none_of_has hnew.2 endpoint)
    rw [hnone, hleft _ hi]
    rfl
  split
  · rw [Option.getD_some, uniteEndpoint]
    split
    · rfl
    · rename_i hnone
      have hnone := endpointOr_eq_nil ha (by simpa using hnone)
      rw [hnone, hleft _ hi]
  · rename_i hnone
    have hnone := endpointOr_eq_nil hb (by simpa using hnone)
    rw [hnone, hright]
    rfl

/-- A merge has entries for endpoints with files only. -/
theorem Merges.within_merge (h : Merges table unite inner) {a b : Catalog}
    (ha : (table a).Within a.files) (hb : (table b).Within b.files)
    (hfiles : DistinctTables b.files) : (table (a.merge b)).Within (a.merge b).files := by
  intro service endpoint hs
  rw [at?_files_merge hfiles, Option.isSome_or, Bool.or_eq_true]
  rw [h.at?_merge a hfiles] at hs
  split at hs
  · exact .inl (hb service endpoint hs)
  split at hs
  · rename_i hfile
    exact .inl hfile
  · exact .inr (ha service endpoint hs)

end Merges

theorem Filed.merge {a b : Catalog} (ha : a.Filed) (hb : b.Filed) (hfiles : DistinctTables b.files) :
    (a.merge b).Filed where
  methods := merges_methods.within_merge ha.methods hb.methods hfiles
  types := merges_types.within_merge ha.types hb.types hfiles
  namespaces := merges_namespaces.within_merge ha.namespaces hb.namespaces hfiles

/-! ### Catalogs -/

/-- A catalog is the union of some catalogs, table by table and entry by entry. -/
structure LatestCatalog (catalogs : List Catalog) (union : Catalog) : Prop where
  files : LatestTables (catalogs.map fun catalog => catalog.files) union.files
  methods : ∀ service endpoint,
    LatestOf (catalogs.map fun catalog => endpointOr catalog.methods service endpoint)
      (endpointOr union.methods service endpoint)
  types : ∀ service endpoint,
    LatestOf (catalogs.map fun catalog => endpointOr catalog.types service endpoint)
      (endpointOr union.types service endpoint)
  namespaces : ∀ service endpoint,
    LatestTables (catalogs.map fun catalog => endpointOr catalog.namespaces service endpoint)
      (endpointOr union.namespaces service endpoint)
  warnings : union.warnings = catalogs.flatMap fun catalog => catalog.warnings

theorem latestCatalog_single {catalog : Catalog} (h : catalog.Keyed) :
    LatestCatalog [catalog] catalog where
  files := latestTables_single h.files
  methods _ _ := latestOf_single (merges_methods.inner_endpointOr h.methods _ _)
  types _ _ := latestOf_single (merges_types.inner_endpointOr h.types _ _)
  namespaces _ _ := latestTables_single (merges_namespaces.inner_endpointOr h.namespaces _ _)
  warnings := by simp

/-- One more catalog is merged into a union. -/
theorem LatestCatalog.merge {catalogs : List Catalog} {union b : Catalog}
    (h : LatestCatalog catalogs union) (hu : union.Filed) (hb : b.Filed) (hk : b.Keyed) :
    LatestCatalog (catalogs ++ [b]) (union.merge b) where
  files := by
    rw [files_merge, List.map_append]
    exact LatestTables.uniteNamespaces h.files hk.files
  methods service endpoint := by
    rw [merges_methods.endpointOr_merge (fun _ => putAll_nil_left) putAll_nil hu.methods hb.methods
      hk.methods hk.files, List.map_append]
    exact (h.methods service endpoint).putAll (merges_methods.inner_endpointOr hk.methods _ _)
  types service endpoint := by
    rw [merges_types.endpointOr_merge (fun _ => putAll_nil_left) putAll_nil hu.types hb.types
      hk.types hk.files, List.map_append]
    exact (h.types service endpoint).putAll (merges_types.inner_endpointOr hk.types _ _)
  namespaces service endpoint := by
    have hleft : ∀ namespaces : Namespaces, DistinctTables namespaces →
        uniteNamespaces [] namespaces = namespaces := by
      intro namespaces hd
      rw [uniteNamespaces_eq]
      exact uniteWith_nil_left (fun _ => rfl) hd.names
    rw [merges_namespaces.endpointOr_merge hleft (fun _ => rfl) hu.namespaces hb.namespaces
      hk.namespaces hk.files, List.map_append]
    exact LatestTables.uniteNamespaces (h.namespaces service endpoint)
      (merges_namespaces.inner_endpointOr hk.namespaces _ _)
  warnings := by
    rw [warnings_merge, h.warnings]
    simp

/-- Some more catalogs are merged into a union, one after the other. -/
theorem LatestCatalog.mergeAll {catalogs others : List Catalog} {union : Catalog}
    (h : LatestCatalog catalogs union) (hu : union.Filed)
    (ho : ∀ catalog ∈ others, catalog.Keyed ∧ catalog.Filed) :
    LatestCatalog (catalogs ++ others) (union.mergeAll others) := by
  induction others generalizing catalogs union with
  | nil =>
    rw [List.append_nil]
    exact h
  | cons next others ih =>
    obtain ⟨⟨hk, hf⟩, ho⟩ := List.forall_mem_cons.1 ho
    rw [List.append_cons]
    exact ih (h.merge hu hf hk) (hu.merge hf hk.files) ho

/-- **A merge is the union of its catalogs, and the last one wins.** If no catalog repeats a name in
a table, and none has entries for an endpoint without a file, then in the merge of the catalogs:

* the services, and the endpoints of each, stand in the order in which they came first, each
  endpoint with the file of the last catalog that has one;
* the methods, the types, the namespaces and the declarations of each namespace of an endpoint stand
  in the order in which they came first, each with the text of the last catalog that has it;
* the warnings follow one another. -/
theorem mergeAll_latest {first : Catalog} {others : List Catalog}
    (h : ∀ catalog ∈ first :: others, catalog.Keyed ∧ catalog.Filed) :
    LatestCatalog (first :: others) (first.mergeAll others) := by
  obtain ⟨⟨hk, hf⟩, ho⟩ := List.forall_mem_cons.1 h
  exact (latestCatalog_single hk).mergeAll hf ho

/-- Three catalogs: the second one has no methods and a file of its own for the endpoint that all
have, and the third one has a new declaration in a namespace of the first. -/
theorem mergeAll_latest_directory :
    let a : Catalog := {
      files := [("Directory", [("Book", "Directory/Book")])]
      methods := [("Directory", [("Book", [("Find", "old"), ("List", "old")])])]
      namespaces := [("Directory", [("Book", [("BookTypes", [("unit", "old")])])])]
      warnings := ["first"] }
    let b : Catalog := {
      files := [("Stock", []), ("Directory", [("Map", "map"), ("Book", "book")])]
      types := [("Directory", [("Book", [("IFindInput", "string")])])] }
    let c : Catalog := {
      files := [("Directory", [("Book", "book")])]
      methods := [("Directory", [("Book", [("Count", "new"), ("Find", "new")])])]
      namespaces := [("Directory", [("Book", [("BookTypes", [("size", "new"), ("unit", "new")])])])]
      warnings := ["second"] }
    LatestCatalog [a, b, c] (a.mergeAll [b, c]) ∧
      (a.mergeAll [b, c]).files.keys = ["Directory", "Stock"] ∧
      endpointOr (a.mergeAll [b, c]).methods "Directory" "Book" =
        [("Find", "new"), ("List", "old"), ("Count", "new")] := by
  intro a b c
  refine ⟨mergeAll_latest ?_, by decide, by decide⟩
  have hkeyed : a.Keyed ∧ b.Keyed ∧ c.Keyed := by
    refine ⟨?_, ?_, ?_⟩ <;> constructor <;>
      simp [a, b, c, Table.keyed_iff, distinctTables_iff, Entries.Distinct]
  have hfiled : a.Filed ∧ b.Filed ∧ c.Filed := by
    refine ⟨?_, ?_, ?_⟩ <;> constructor <;> exact Table.within_of_forall (by decide)
  simpa using ⟨⟨hkeyed.1, hfiled.1⟩, ⟨hkeyed.2.1, hfiled.2.1⟩, hkeyed.2.2, hfiled.2.2⟩

end Catalog

end SoapTypes
