import SoapTypes.Proofs.KeyedCatalog

/-!
# The tables of a merged catalog

A merge goes through the files of the catalog that is merged in, and its other tables follow them:
an endpoint that both catalogs have a file for is united, a new endpoint or service is taken over,
and what stands in a table beside the files is left alone or comes along with its service.

* `Catalog.files_merge`: the files of a merge are the union of the files.
* `Catalog.Merges` is what the three other tables have in common; `Merges.at?_merge` and
  `Merges.has_merge` say which entry they have for an endpoint, and which services.
* `Catalog.Keyed.merge`: if no table repeats a name, none does after a merge.
* `Catalog.asBefore_mergeAll`: an endpoint of one catalog stays as it is.
-/

namespace SoapTypes

namespace Entries

variable {α : Type}

theorem has_cons (key : String) (value : α) (entries : List (String × α)) (other : String) :
    has ((key, value) :: entries) other = (decide (key = other) || has entries other) := by
  by_cases hk : key = other <;> simp [has, value?, hk]

theorem put_eq_self {entries : Entries α} {key : String} {value : α}
    (h : entries.value? key = some value) : entries.put key value = entries := by
  induction entries with
  | nil => simp at h
  | cons entry entries ih =>
    obtain ⟨k, v⟩ := entry
    by_cases hk : k = key
    · obtain rfl : v = value := by simpa [value?, hk] using h
      simp [put, hk]
    · simp only [value?, hk, if_false] at h
      simp [put, hk, ih h]

theorem put_put (entries : Entries α) (key : String) (value value' : α) :
    (entries.put key value).put key value' = entries.put key value' := by
  induction entries with
  | nil => simp [put]
  | cons entry entries ih =>
    obtain ⟨k, v⟩ := entry
    by_cases hk : k = key
    · simp [put, hk]
    · simp [put, hk, ih]

end Entries

namespace Table

variable {α : Type}

/-- Put for a service what another table has for it. -/
theorem at?_put_getD (table : Table α) (service : String) (endpoints : Option (Entries α))
    (service' endpoint' : String) :
    at? (Entries.put table service (endpoints.getD []) : Table α) service' endpoint' =
      if service = service' then endpoints.bind fun endpoints => endpoints.value? endpoint'
      else table.at? service' endpoint' := by
  unfold at?
  rw [Entries.value?_put]
  by_cases hs : service = service'
  · subst hs
    cases endpoints <;> simp
  · simp [hs]

end Table

namespace Catalog

open Entries

/-! ### One endpoint and one service -/

/-- What a merge makes of the entries of an endpoint that has a file in `b`. -/
def uniteEndpoint {β : Type} (table : Catalog → Table (Entries β))
    (unite : Entries β → Entries β → Entries β) (a b : Catalog) (service endpoint : String) :
    Entries β :=
  if (a.files.at? service endpoint).isSome then
    unite (endpointOr (table a) service endpoint) (endpointOr (table b) service endpoint)
  else endpointOr (table b) service endpoint

theorem mergeEndpoint_eq (b : Catalog) (service : String) (x : Catalog) (entry : String × String) :
    mergeEndpoint b service x entry =
      { x with
        files := x.files.set service entry.1 entry.2
        methods := x.methods.set service entry.1
          (uniteEndpoint (·.methods) Entries.putAll x b service entry.1)
        types := x.types.set service entry.1
          (uniteEndpoint (·.types) Entries.putAll x b service entry.1)
        namespaces := x.namespaces.set service entry.1
          (uniteEndpoint (·.namespaces) uniteNamespaces x b service entry.1) } := by
  obtain ⟨endpoint, file⟩ := entry
  unfold uniteEndpoint
  by_cases hs : (x.files.at? service endpoint).isSome = true
  · simp [mergeEndpoint, hs]
  · simp [mergeEndpoint, hs]

theorem mergeService_of_has {b x : Catalog} {service : String} (h : x.files.has service = true)
    (files : Entries String) :
    mergeService b x (service, files) = files.foldl (mergeEndpoint b service) x := if_pos h

theorem mergeService_of_new {b x : Catalog} {service : String} (h : x.files.has service = false)
    (files : Entries String) :
    mergeService b x (service, files) =
      { x with
        files := x.files.put service files
        methods := x.methods.put service ((b.methods.value? service).getD [])
        types := x.types.put service ((b.types.value? service).getD [])
        namespaces := x.namespaces.put service ((b.namespaces.value? service).getD []) } :=
  if_neg (by rw [h]; decide)

/-- What a merged endpoint keeps and a new service keeps, a merge keeps. -/
theorem merge_induction {motive : Catalog → Prop} {a b : Catalog}
    (hendpoint : ∀ service entry x, motive x → motive (mergeEndpoint b service x entry))
    (hservice : ∀ service files x, x.files.has service = false → motive x →
      motive (mergeService b x (service, files)))
    (h : motive { a with warnings := a.warnings ++ b.warnings }) : motive (a.merge b) := by
  refine List.foldlRecOn b.files (mergeService b) h fun x hx entry _ => ?_
  obtain ⟨service, files⟩ := entry
  cases hs : x.files.has service with
  | true =>
    rw [mergeService_of_has hs]
    exact List.foldlRecOn files (mergeEndpoint b service) hx fun x hx entry _ =>
      hendpoint service entry x hx
  | false => exact hservice service files x hs hx

/-! ### Files and warnings -/

/-- The files of the endpoints of a service that is there are put among those it has. -/
theorem files_mergeEndpoints (b : Catalog) {service : String} (files : Entries String) {x : Catalog}
    {held : Entries String} (h : Entries.value? x.files service = some held) :
    (files.foldl (mergeEndpoint b service) x).files = x.files.put service (held.putAll files) := by
  induction files generalizing x held with
  | nil => exact (put_eq_self h).symm
  | cons entry files ih =>
    have hx : (mergeEndpoint b service x entry).files =
        x.files.put service (held.put entry.1 entry.2) := by
      rw [mergeEndpoint_eq, Table.set, h, Option.getD_some]
    have hheld : Entries.value? (mergeEndpoint b service x entry).files service =
        some (held.put entry.1 entry.2) := by rw [hx, value?_put, if_pos rfl]
    rw [List.foldl_cons, ih hheld, hx, put_put,
      putAll_cons]

theorem files_mergeService (b x : Catalog) (entry : String × Entries String) :
    (mergeService b x entry).files =
      x.files.alter entry.1 fun held => uniteDeclarations held entry.2 := by
  obtain ⟨service, files⟩ := entry
  cases hv : Entries.value? x.files service with
  | none =>
    have hs : x.files.has service = false := by rw [has, hv]; rfl
    rw [mergeService_of_new hs, alter, hv]
    rfl
  | some held =>
    have hs : x.files.has service = true := by rw [has, hv]; rfl
    rw [mergeService_of_has hs, alter, hv]
    exact files_mergeEndpoints b files hv

theorem value?_files_mergeService_of_ne (b x : Catalog) {first service : String}
    (hs : first ≠ service) (files : Entries String) :
    Entries.value? (mergeService b x (first, files)).files service =
      Entries.value? x.files service := by
  rw [files_mergeService, value?_alter, if_neg hs]

/-- **The files of a merge are the union of the files**, with their order. -/
theorem files_merge (a b : Catalog) : (a.merge b).files = uniteNamespaces a.files b.files := by
  have hg : ∀ (services : Table String) (x : Catalog),
      (services.foldl (mergeService b) x).files = uniteWith uniteDeclarations x.files services := by
    intro services
    induction services with
    | nil => exact fun x => rfl
    | cons entry services ih =>
      intro x
      rw [List.foldl_cons, ih, files_mergeService]
      rfl
  exact hg b.files { a with warnings := a.warnings ++ b.warnings }

theorem has_files_merge {a b : Catalog} (hb : Entries.Distinct b.files) (service : String) :
    (a.merge b).files.has service = (a.files.has service || b.files.has service) := by
  rw [has, files_merge, uniteNamespaces_eq, value?_uniteWith hb, has, has]
  cases Entries.value? a.files service <;> cases Entries.value? b.files service <;> rfl

theorem at?_files_merge {a b : Catalog} (hb : DistinctTables b.files)
    (service endpoint : String) :
    (a.merge b).files.at? service endpoint =
      (b.files.at? service endpoint).or (a.files.at? service endpoint) := by
  rw [Table.at?, files_merge, uniteNamespaces_eq, value?_uniteWith hb.names, Table.at?, Table.at?]
  cases hvb : Entries.value? b.files service with
  | none => rfl
  | some files =>
    cases hva : Entries.value? a.files service with
    | none => simp [uniteDeclarations]
    | some held =>
      have hd : Entries.Distinct files := hb.entries _ (mem_of_value? hvb)
      simp [uniteDeclarations, value?_putAll hd]

theorem warnings_merge (a b : Catalog) : (a.merge b).warnings = a.warnings ++ b.warnings := by
  refine merge_induction (motive := fun x => x.warnings = a.warnings ++ b.warnings)
    (fun service entry x hx => ?_) (fun service files x hs hx => ?_) rfl
  · rw [mergeEndpoint_eq, hx]
  · rw [mergeService_of_new hs, hx]

/-! ### The other tables -/

/-- A way to unite entries that is associative for those with a property, and keeps it. -/
structure Unites {β : Type} (unite : Entries β → Entries β → Entries β)
    (inner : Entries β → Prop) : Prop where
  nil : inner []
  unite_inner {a b : Entries β} (ha : inner a) (hb : inner b) : inner (unite a b)
  assoc {a b c : Entries β} (ha : inner a) (hb : inner b) (hc : inner c) :
    unite (unite a b) c = unite a (unite b c)

theorem unites_putAll {β : Type} : Unites (Entries.putAll (α := β)) Entries.Distinct where
  nil := List.nodup_nil
  unite_inner ha _ := distinct_putAll ha _
  assoc := putAll_assoc

theorem unites_uniteNamespaces : Unites uniteNamespaces DistinctTables where
  nil := distinctTables_nil
  unite_inner := distinctTables_uniteNamespaces
  assoc := uniteNamespaces_assoc

/-- What the tables beside the files have in common in a merge: how `table` takes over an endpoint
or a service, where `unite` unites the entries of an endpoint that both catalogs have, and `inner`
is what holds of the entries. -/
structure Merges {β : Type} (table : Catalog → Table (Entries β))
    (unite : Entries β → Entries β → Entries β) (inner : Entries β → Prop) : Prop
    extends Unites unite inner where
  start (a : Catalog) (warnings : List String) : table { a with warnings := warnings } = table a
  endpoint (b x : Catalog) (service : String) (entry : String × String) :
    table (mergeEndpoint b service x entry) =
      (table x).set service entry.1 (uniteEndpoint table unite x b service entry.1)
  service {b x : Catalog} {service : String} (h : x.files.has service = false)
    (files : Entries String) :
    table (mergeService b x (service, files)) =
      Entries.put (table x) service ((Entries.value? (table b) service).getD [])

theorem merges_methods : Merges (·.methods) Entries.putAll Entries.Distinct where
  toUnites := unites_putAll
  start _ _ := rfl
  endpoint _ _ _ _ := by rw [mergeEndpoint_eq]
  service h _ := by rw [mergeService_of_new h]

theorem merges_types : Merges (·.types) Entries.putAll Entries.Distinct where
  toUnites := unites_putAll
  start _ _ := rfl
  endpoint _ _ _ _ := by rw [mergeEndpoint_eq]
  service h _ := by rw [mergeService_of_new h]

theorem merges_namespaces : Merges (·.namespaces) uniteNamespaces DistinctTables where
  toUnites := unites_uniteNamespaces
  start _ _ := rfl
  endpoint _ _ _ _ := by rw [mergeEndpoint_eq]
  service h _ := by rw [mergeService_of_new h]

section Merges

variable {β : Type} {table : Catalog → Table (Entries β)}
  {unite : Entries β → Entries β → Entries β} {inner : Entries β → Prop}

/-- The files of endpoints that are merged into a service change these endpoints and no others. -/
theorem Merges.at?_mergeEndpoints (h : Merges table unite inner) (b : Catalog) {service : String}
    {files : Entries String} (hd : files.Distinct) (x : Catalog) (service' endpoint' : String) :
    (table (files.foldl (mergeEndpoint b service) x)).at? service' endpoint' =
      if service = service' ∧ files.has endpoint' = true then
        some (uniteEndpoint table unite x b service endpoint')
      else (table x).at? service' endpoint' := by
  induction files generalizing x with
  | nil => simp [has]
  | cons entry files ih =>
    obtain ⟨endpoint, file⟩ := entry
    obtain ⟨hk, hd⟩ := List.nodup_cons.1 hd
    rw [List.foldl_cons, ih hd, h.endpoint, has_cons]
    by_cases he : service = service' ∧ endpoint = endpoint'
    · -- the endpoint is merged now, and no other file of this name comes later
      obtain ⟨rfl, rfl⟩ := he
      have hlater : has files endpoint = false := has_eq_false hk
      simp [Table.at?_set, hlater]
    · rw [Table.at?_set, if_neg he]
      by_cases hs : service = service'
      · subst hs
        have hne : endpoint ≠ endpoint' := fun e => he ⟨rfl, e⟩
        -- and the files that come later are merged into what was there before
        have hsame :
            uniteEndpoint table unite (mergeEndpoint b service x (endpoint, file)) b service
              endpoint' = uniteEndpoint table unite x b service endpoint' := by
          rw [uniteEndpoint, uniteEndpoint, endpointOr, h.endpoint, Table.at?_set, if_neg he,
            mergeEndpoint_eq, Table.at?_set, if_neg he]
          rfl
        simp [hsame, hne]
      · simp [hs]

/-- The entries of an endpoint after a service was merged. -/
theorem Merges.at?_mergeService (h : Merges table unite inner) (b x : Catalog)
    {files : Entries String} (hd : files.Distinct) (first service endpoint : String) :
    (table (mergeService b x (first, files))).at? service endpoint =
      if first = service then
        if x.files.has service = false then (table b).at? service endpoint
        else if files.has endpoint then some (uniteEndpoint table unite x b service endpoint)
        else (table x).at? service endpoint
      else (table x).at? service endpoint := by
  cases hx : x.files.has first with
  | true =>
    rw [mergeService_of_has hx, h.at?_mergeEndpoints b hd]
    by_cases hs : first = service
    · subst hs
      simp [hx]
    · simp [hs]
  | false =>
    rw [h.service hx, Table.at?_put_getD]
    by_cases hs : first = service
    · subst hs
      simp [hx, Table.at?]
    · simp [hs]

/-- The entries of an endpoint after some services were merged, one after the other. -/
theorem Merges.at?_mergeServices (h : Merges table unite inner) (b : Catalog)
    {services : Table String} (hk : DistinctTables services) (x : Catalog)
    (service endpoint : String) :
    (table (services.foldl (mergeService b) x)).at? service endpoint =
      if Entries.has services service = true ∧ x.files.has service = false then
        (table b).at? service endpoint
      else if (services.at? service endpoint).isSome then
        some (uniteEndpoint table unite x b service endpoint)
      else (table x).at? service endpoint := by
  obtain ⟨hd, hi⟩ := hk
  induction services generalizing x with
  | nil => simp [has, Table.at?]
  | cons entry services ih =>
    obtain ⟨first, files⟩ := entry
    obtain ⟨hk, hd⟩ := List.nodup_cons.1 hd
    have hfiles := hi _ List.mem_cons_self
    rw [List.foldl_cons, ih _ hd fun entry hm => hi entry (List.mem_cons_of_mem _ hm), has_cons]
    by_cases hs : first = service
    · -- the service is merged now, and no other one of this name comes later
      subst hs
      have hlater : has services first = false := has_eq_false hk
      have hat : Table.at? services first endpoint = none :=
        Table.at?_eq_none_of_has hlater endpoint
      have hhas : files.has endpoint = (files.value? endpoint).isSome := rfl
      rw [hat, Table.at?_cons, if_pos rfl, h.at?_mergeService b x hfiles, if_pos rfl, hhas]
      simp [hlater]
    · -- a service of another name changes neither the files nor the entries
      have hv := value?_files_mergeService_of_ne b x hs files
      have htable : (table (mergeService b x (first, files))).at? service endpoint =
          (table x).at? service endpoint := by
        rw [h.at?_mergeService b x hfiles, if_neg hs]
      have hunite : uniteEndpoint table unite (mergeService b x (first, files)) b service endpoint =
          uniteEndpoint table unite x b service endpoint := by
        rw [uniteEndpoint, uniteEndpoint, endpointOr, htable, Table.at?, hv]
        rfl
      rw [Table.at?_cons, if_neg hs, htable, hunite, has, has, hv]
      simp [hs, has]

/-- **The entries of an endpoint in a merge.** -/
theorem Merges.at?_merge (h : Merges table unite inner) (a : Catalog) {b : Catalog}
    (hb : DistinctTables b.files) (service endpoint : String) :
    (table (a.merge b)).at? service endpoint =
      if b.files.has service = true ∧ a.files.has service = false then
        (table b).at? service endpoint
      else if (b.files.at? service endpoint).isSome then
        some (uniteEndpoint table unite a b service endpoint)
      else (table a).at? service endpoint := by
  rw [merge, h.at?_mergeServices b hb]
  simp only [uniteEndpoint, endpointOr, h.start]

/-- Where the tables have an endpoint exactly if there is a file for it, a merge unites what they
have for it. -/
theorem Merges.at?_merge_of_isSome (h : Merges table unite inner) {a b : Catalog}
    (hb : DistinctTables b.files) {service endpoint : String}
    (hat : ((table a).at? service endpoint).isSome = (a.files.at? service endpoint).isSome)
    (hat' : ((table b).at? service endpoint).isSome = (b.files.at? service endpoint).isSome) :
    (table (a.merge b)).at? service endpoint =
      Option.merge unite ((table a).at? service endpoint) ((table b).at? service endpoint) := by
  rw [h.at?_merge a hb, uniteEndpoint, endpointOr, endpointOr, ← hat, ← hat']
  split
  · rename_i hnew
    -- without the service there are no entries in the first table
    rw [Table.at?_eq_none_of_has hnew.2 endpoint] at hat
    rw [Option.isSome_eq_false_iff.1 hat |> Option.isNone_iff_eq_none.1]
    cases (table b).at? service endpoint <;> rfl
  · cases (table a).at? service endpoint <;> cases (table b).at? service endpoint <;> rfl

/-- The services of a table after endpoints were merged into a service. -/
theorem Merges.has_mergeEndpoints (h : Merges table unite inner) (b : Catalog) (service : String)
    (files : Entries String) (x : Catalog) (service' : String) :
    Entries.has (table (files.foldl (mergeEndpoint b service) x)) service' = true ↔
      Entries.has (table x) service' = true ∨ (service = service' ∧ files ≠ []) := by
  induction files generalizing x with
  | nil => simp
  | cons entry files ih =>
    rw [List.foldl_cons, ih, h.endpoint, Table.has_set, Bool.or_eq_true, decide_eq_true_eq]
    constructor
    · rintro ((hs | hx) | ⟨hs, -⟩)
      · exact .inr ⟨hs, List.cons_ne_nil _ _⟩
      · exact .inl hx
      · exact .inr ⟨hs, List.cons_ne_nil _ _⟩
    · rintro (hx | ⟨hs, -⟩)
      · exact .inl (.inr hx)
      · exact .inl (.inl hs)

/-- The services of a table after a service was merged. -/
theorem Merges.has_mergeService (h : Merges table unite inner) (b x : Catalog) (first : String)
    (files : Entries String) (service : String) :
    Entries.has (table (mergeService b x (first, files))) service = true ↔
      Entries.has (table x) service = true ∨
        (first = service ∧ (x.files.has service = false ∨ files ≠ [])) := by
  cases hx : x.files.has first with
  | true =>
    rw [mergeService_of_has hx, h.has_mergeEndpoints]
    by_cases hs : first = service
    · subst hs
      simp [hx]
    · simp [hs]
  | false =>
    rw [h.service hx, has_put, Bool.or_eq_true, decide_eq_true_eq]
    by_cases hs : first = service
    · subst hs
      simp [hx]
    · simp [hs]

/-- The services of a table after some services were merged, one after the other. -/
theorem Merges.has_mergeServices (h : Merges table unite inner) (b : Catalog)
    {services : Table String} (hd : Entries.Distinct services) (x : Catalog) (service : String) :
    Entries.has (table (services.foldl (mergeService b) x)) service = true ↔
      Entries.has (table x) service = true ∨ (Entries.has services service = true ∧
        (x.files.has service = false ∨ ∃ endpoint, (services.at? service endpoint).isSome)) := by
  induction services generalizing x with
  | nil => simp [has]
  | cons entry services ih =>
    obtain ⟨first, files⟩ := entry
    obtain ⟨hk, hd⟩ := List.nodup_cons.1 hd
    rw [List.foldl_cons, ih hd, has_cons, h.has_mergeService]
    by_cases hs : first = service
    · -- the service is merged now, and no other one of this name comes later
      subst hs
      have hlater : has services first = false := has_eq_false hk
      have hfiles : (∃ endpoint, (files.value? endpoint).isSome = true) ↔ files ≠ [] := by
        constructor
        · rintro ⟨endpoint, hv⟩ rfl
          simp at hv
        · intro hne
          obtain ⟨⟨endpoint, file⟩, rest, rfl⟩ := List.exists_cons_of_ne_nil hne
          exact ⟨endpoint, by simp [value?]⟩
      simp only [hlater, Table.at?_cons, if_true, hfiles, decide_true, Bool.true_or,
        Bool.false_eq_true, false_and, or_false, true_and]
    · -- a service of another name changes neither the files nor the services
      have hv : (mergeService b x (first, files)).files.has service = x.files.has service := by
        rw [has, value?_files_mergeService_of_ne b x hs, has]
      simp only [hv, Table.at?_cons, hs, if_false, decide_false, Bool.false_or, false_and, or_false]

/-- **The services of a table of a merge.** -/
theorem Merges.has_merge (h : Merges table unite inner) (a : Catalog) {b : Catalog}
    (hb : Entries.Distinct b.files) (service : String) :
    Entries.has (table (a.merge b)) service = true ↔
      Entries.has (table a) service = true ∨ (b.files.has service = true ∧
        (a.files.has service = false ∨ ∃ endpoint, (b.files.at? service endpoint).isSome)) := by
  rw [merge, h.has_mergeServices b hb, h.start]

/-! ### Tables that repeat no name -/

theorem Merges.inner_endpointOr (h : Merges table unite inner) {a : Catalog}
    (ha : Table.Keyed inner (table a)) (service endpoint : String) :
    inner (endpointOr (table a) service endpoint) := by
  unfold endpointOr
  cases hv : (table a).at? service endpoint with
  | none => exact h.nil
  | some entries => exact ha.at? hv

/-- A merge of tables that repeat no name is such a table. -/
theorem Merges.keyed_merge (h : Merges table unite inner) {a b : Catalog}
    (ha : Table.Keyed inner (table a)) (hb : Table.Keyed inner (table b)) :
    Table.Keyed inner (table (a.merge b)) := by
  refine merge_induction (motive := fun x => Table.Keyed inner (table x))
    (fun service entry x hx => ?_) (fun service files x hs hx => ?_) ?_
  · rw [h.endpoint]
    refine hx.set _ _ ?_
    unfold uniteEndpoint
    split
    · exact h.unite_inner (h.inner_endpointOr hx _ _) (h.inner_endpointOr hb _ _)
    · exact h.inner_endpointOr hb _ _
  · rw [h.service hs]
    exact hx.put (hb.getD service) (hb.value_of_mem_getD service)
  · rw [h.start]
    exact ha

end Merges

theorem Keyed.merge {a b : Catalog} (ha : a.Keyed) (hb : b.Keyed) : (a.merge b).Keyed where
  files := files_merge a b ▸ distinctTables_uniteNamespaces ha.files hb.files
  methods := merges_methods.keyed_merge ha.methods hb.methods
  types := merges_types.keyed_merge ha.types hb.types
  namespaces := merges_namespaces.keyed_merge ha.namespaces hb.namespaces

/-! ### Endpoints of one catalog -/

/-- The tables have an endpoint exactly if there is a file for it. -/
structure AlignedAt (service endpoint : String) (catalog : Catalog) : Prop where
  methods : (catalog.methods.at? service endpoint).isSome =
    (catalog.files.at? service endpoint).isSome
  types : (catalog.types.at? service endpoint).isSome =
    (catalog.files.at? service endpoint).isSome
  namespaces : (catalog.namespaces.at? service endpoint).isSome =
    (catalog.files.at? service endpoint).isSome

theorem InStep.alignedAt {catalog : Catalog} (h : catalog.InStep) (service endpoint : String) :
    AlignedAt service endpoint catalog where
  methods := (h.methods.at? service endpoint).symm.trans (h.files.at? service endpoint)
  types := h.files.at? service endpoint
  namespaces := (h.namespaces.at? service endpoint).symm.trans (h.files.at? service endpoint)

section Endpoint

variable {service endpoint : String} {a b : Catalog}

theorem AlignedAt.of_asBefore (h : AlignedAt service endpoint a)
    (hs : AsBefore service endpoint a b) : AlignedAt service endpoint b where
  methods := by rw [← hs.methods, ← hs.files, h.methods]
  types := by rw [← hs.types, ← hs.files, h.types]
  namespaces := by rw [← hs.namespaces, ← hs.files, h.namespaces]

/-- Without a file the tables have nothing for an endpoint. -/
theorem AlignedAt.eq_none (h : AlignedAt service endpoint a)
    (hnone : a.files.at? service endpoint = none) :
    a.methods.at? service endpoint = none ∧ a.types.at? service endpoint = none ∧
      a.namespaces.at? service endpoint = none := by
  obtain ⟨hm, ht, hn⟩ := h
  simpa [hnone] using And.intro hm (And.intro ht hn)

/-- An endpoint that the catalog that is merged in does not have stays as it is. -/
theorem asBefore_merge_left (ha : AlignedAt service endpoint a) (hb : AlignedAt service endpoint b)
    (hf : DistinctTables b.files) (hnone : b.files.at? service endpoint = none) :
    AsBefore service endpoint a (a.merge b) := by
  obtain ⟨hm, ht, hn⟩ := hb.eq_none hnone
  refine ⟨⟨?_, ?_⟩, ?_, ?_⟩
  · rw [merges_types.at?_merge_of_isSome hf ha.types hb.types, ht, Option.merge_none_right]
  · rw [merges_namespaces.at?_merge_of_isSome hf ha.namespaces hb.namespaces, hn,
      Option.merge_none_right]
  · rw [merges_methods.at?_merge_of_isSome hf ha.methods hb.methods, hm, Option.merge_none_right]
  · rw [at?_files_merge hf, hnone, Option.none_or]

/-- An endpoint that only the catalog that is merged in has is taken over. -/
theorem asBefore_merge_right (ha : AlignedAt service endpoint a) (hb : AlignedAt service endpoint b)
    (hf : DistinctTables b.files) (hnone : a.files.at? service endpoint = none) :
    AsBefore service endpoint b (a.merge b) := by
  obtain ⟨hm, ht, hn⟩ := ha.eq_none hnone
  refine ⟨⟨?_, ?_⟩, ?_, ?_⟩
  · rw [merges_types.at?_merge_of_isSome hf ha.types hb.types, ht, Option.merge_none_left]
  · rw [merges_namespaces.at?_merge_of_isSome hf ha.namespaces hb.namespaces, hn,
      Option.merge_none_left]
  · rw [merges_methods.at?_merge_of_isSome hf ha.methods hb.methods, hm, Option.merge_none_left]
  · rw [at?_files_merge hf, hnone, Option.or_none]

theorem AlignedAt.merge (ha : AlignedAt service endpoint a) (hb : AlignedAt service endpoint b)
    (hf : DistinctTables b.files) : AlignedAt service endpoint (a.merge b) where
  methods := by
    rw [merges_methods.at?_merge_of_isSome hf ha.methods hb.methods, at?_files_merge hf,
      Option.isSome_merge, Option.isSome_or, ha.methods, hb.methods, Bool.or_comm]
  types := by
    rw [merges_types.at?_merge_of_isSome hf ha.types hb.types, at?_files_merge hf,
      Option.isSome_merge, Option.isSome_or, ha.types, hb.types, Bool.or_comm]
  namespaces := by
    rw [merges_namespaces.at?_merge_of_isSome hf ha.namespaces hb.namespaces, at?_files_merge hf,
      Option.isSome_merge, Option.isSome_or, ha.namespaces, hb.namespaces, Bool.or_comm]

/-- **An endpoint that only one of several catalogs has is in their merge as it is there.** -/
theorem asBefore_mergeAll {first : Catalog} {others : List Catalog}
    (ha : ∀ catalog ∈ first :: others,
      AlignedAt service endpoint catalog ∧ DistinctTables catalog.files)
    (hone : (first :: others).Pairwise fun a b =>
      a.files.at? service endpoint = none ∨ b.files.at? service endpoint = none)
    {catalog : Catalog} (hc : catalog ∈ first :: others)
    (hs : (catalog.files.at? service endpoint).isSome = true) :
    AsBefore service endpoint catalog (first.mergeAll others) := by
  induction others generalizing first catalog with
  | nil =>
    obtain rfl := List.mem_singleton.1 hc
    exact .refl _ _ _
  | cons next others ih =>
    obtain ⟨hfirst, hone⟩ := List.pairwise_cons.1 hone
    obtain ⟨hnext, hrest⟩ := List.pairwise_cons.1 hone
    obtain ⟨haf, hdf⟩ := ha first List.mem_cons_self
    obtain ⟨han, hdn⟩ := ha next (List.mem_cons_of_mem _ List.mem_cons_self)
    -- the first two are merged, and the others into what comes out
    have ham : ∀ catalog ∈ first.merge next :: others,
        AlignedAt service endpoint catalog ∧ DistinctTables catalog.files := by
      intro catalog hm
      rcases List.mem_cons.1 hm with rfl | hm
      · exact ⟨haf.merge han hdn, files_merge first next ▸ distinctTables_uniteNamespaces hdf hdn⟩
      · exact ha catalog (List.mem_cons_of_mem _ (List.mem_cons_of_mem _ hm))
    have hmone : (first.merge next :: others).Pairwise fun a b =>
        a.files.at? service endpoint = none ∨ b.files.at? service endpoint = none := by
      refine List.pairwise_cons.2 ⟨fun other ho => ?_, hrest⟩
      rcases hfirst other (List.mem_cons_of_mem _ ho) with h | h
      · rcases hnext other ho with h' | h'
        · exact .inl (by rw [at?_files_merge hdn, h, h', Option.none_or])
        · exact .inr h'
      · exact .inr h
    have hpair := hfirst next List.mem_cons_self
    show AsBefore service endpoint catalog ((first.merge next).mergeAll others)
    rcases List.mem_cons.1 hc with rfl | hc
    · have hnone : next.files.at? service endpoint = none := by
        rcases hpair with h | h
        · simp [h] at hs
        · exact h
      have hm := asBefore_merge_left haf han hdn hnone
      exact hm.trans (ih ham hmone List.mem_cons_self (hm.files ▸ hs))
    · rcases List.mem_cons.1 hc with rfl | hc
      · have hnone : first.files.at? service endpoint = none := by
          rcases hpair with h | h
          · exact h
          · simp [h] at hs
        have hm := asBefore_merge_right haf han hdn hnone
        exact hm.trans (ih ham hmone List.mem_cons_self (hm.files ▸ hs))
      · exact ih ham hmone (List.mem_cons_of_mem _ hc) hs

end Endpoint

end Catalog

end SoapTypes
