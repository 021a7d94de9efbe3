import SoapTypes.Proofs.SharedNames

/-!
# What a build puts into a catalog

A build goes from endpoint to endpoint, and each endpoint writes to its own entries only. So what is
there for an endpoint at the end is what was put there for it.

* `Catalog.emitted_of_build`: the types of all operations and the shared shapes of the registry are
  there at the end.
-/

namespace SoapTypes

theorem Traced.outcome_bind {ε α β : Type} (x : Traced ε α) (f : α → Traced ε β) :
    (x >>= f).outcome = x.outcome >>= fun a => (f a).outcome := by
  obtain ⟨notices, outcome⟩ := x
  cases outcome <;> rfl

/-- A sequence succeeds only if both parts do. -/
theorem exists_of_bind_eq_ok {ε α β : Type} {x : Except ε α} {f : α → Except ε β} {b : β}
    (h : (x >>= f) = .ok b) : ∃ a, x = .ok a ∧ f a = .ok b := by
  cases x with
  | error e => cases h
  | ok a => exact ⟨a, rfl, h⟩

theorem toOption_eq_some_iff {ε α : Type} {x : Except ε α} {a : α} :
    x.toOption = some a ↔ x = .ok a := by
  cases x <;> simp [Except.toOption]

namespace Entries

variable {α : Type}

/-- A value stays if every pair of its name that is put gives it again. -/
theorem value?_putAll_of_value? {entries : Entries α} {more : List (String × α)} {key : String}
    {value : α} (hu : ∀ other, (key, other) ∈ more → other = value)
    (h : entries.value? key = some value) : (entries.putAll more).value? key = some value := by
  induction more generalizing entries with
  | nil => exact h
  | cons pair more ih =>
    obtain ⟨k, v⟩ := pair
    refine ih (fun other hm => hu other (List.mem_cons_of_mem _ hm)) ?_
    rw [value?_put]
    split
    · rename_i hk
      subst hk
      rw [hu v List.mem_cons_self]
    · exact h

/-- A value that no other pair of its name contradicts is there after all pairs were put. -/
theorem value?_putAll_of_mem {entries : Entries α} {more : List (String × α)} {key : String}
    {value : α} (h : (key, value) ∈ more) (hu : ∀ other, (key, other) ∈ more → other = value) :
    (entries.putAll more).value? key = some value := by
  induction more generalizing entries with
  | nil => cases h
  | cons pair more ih =>
    have hm : ∀ other, (key, other) ∈ more → other = value :=
      fun other hm => hu other (List.mem_cons_of_mem _ hm)
    rcases List.mem_cons.1 h with rfl | h
    · rw [putAll_cons]
      exact value?_putAll_of_value? hm (by simp)
    · exact ih h hm

theorem has_put (entries : Entries α) (key : String) (value : α) (other : String) :
    (entries.put key value).has other = (decide (key = other) || entries.has other) := by
  unfold has
  rw [value?_put]
  by_cases hk : key = other <;> simp [hk]

end Entries

namespace Table

variable {α : Type}

theorem at?_put_of_ne (table : Table α) {service other : String} (h : service ≠ other)
    (endpoints : Entries α) (endpoint : String) :
    at? (Entries.put table service endpoints) other endpoint = table.at? other endpoint := by
  unfold at?
  rw [Entries.value?_put, if_neg h]

theorem set?_eq_ok {table next : Table α} {service endpoint : String} {value : α} :
    table.set? service endpoint value = .ok next ↔
      Entries.has table service = true ∧ next = table.set service endpoint value := by
  unfold set? set Entries.has
  cases Entries.value? table service <;> simp [eq_comm]

theorem update?_eq_ok {table next : Table α} {service endpoint : String} {f : α → α} :
    table.update? service endpoint f = .ok next ↔
      ∃ value, table.at? service endpoint = some value ∧
        next = table.set service endpoint (f value) := by
  unfold update?
  cases table.at? service endpoint <;> simp [eq_comm]

theorem update?_of_isSome {table : Table α} {service endpoint : String}
    (h : (table.at? service endpoint).isSome = true) (f : α → α) :
    ∃ value, table.update? service endpoint f = .ok (table.set service endpoint value) := by
  obtain ⟨value, hv⟩ := Option.isSome_iff_exists.1 h
  exact ⟨f value, update?_eq_ok.2 ⟨value, hv, rfl⟩⟩

theorem set?_of_has {table : Table α} {service : String} (h : Entries.has table service = true)
    (endpoint : String) (value : α) :
    table.set? service endpoint value = .ok (table.set service endpoint value) :=
  set?_eq_ok.2 ⟨h, rfl⟩

theorem has_of_at? {table : Table α} {service endpoint : String}
    (h : (table.at? service endpoint).isSome = true) : Entries.has table service = true := by
  unfold at? at h
  unfold Entries.has
  cases hv : Entries.value? table service with
  | none => simp [hv] at h
  | some endpoints => rfl

theorem has_set (table : Table α) (service endpoint : String) (value : α) (other : String) :
    Entries.has (table.set service endpoint value) other =
      (decide (service = other) || Entries.has table other) := Entries.has_put _ _ _ _

theorem isSome_at?_set (table : Table α) (service endpoint : String) (value : α)
    (service' endpoint' : String) :
    ((table.set service endpoint value).at? service' endpoint').isSome =
      (decide (service = service' ∧ endpoint = endpoint') ||
        (table.at? service' endpoint').isSome) := by
  rw [at?_set]
  split <;> simp_all

end Table

/-- A description of which no object repeats a name. -/
structure Description.Keyed (description : Description) : Prop where
  services : Entries.Distinct description
  endpoints : ∀ service ∈ description, Entries.Distinct service.2
  operations : ∀ service ∈ description, ∀ endpoint ∈ service.2, Entries.Distinct endpoint.2

theorem Description.keyed_iff {description : Description} :
    description.Keyed ↔ Entries.Distinct description ∧
      (∀ service ∈ description, Entries.Distinct service.2) ∧
      ∀ service ∈ description, ∀ endpoint ∈ service.2, Entries.Distinct endpoint.2 :=
  ⟨fun h => ⟨h.services, h.endpoints, h.operations⟩, fun h => ⟨h.1, h.2.1, h.2.2⟩⟩

/-- The endpoints of a description are those that it has in its services. -/
theorem Description.Keyed.at?_of_mem {description : Description} (hd : description.Keyed)
    {service endpoint : String} {endpoints : Entries Operations} {operations : Operations}
    (hs : (service, endpoints) ∈ description) (he : (endpoint, operations) ∈ endpoints) :
    Table.at? description service endpoint = some operations := by
  rw [Table.at?, Entries.value?_of_mem hd.services hs, Option.bind_some,
    Entries.value?_of_mem (hd.endpoints _ hs) he]

instance (description : Description) : Decidable description.Keyed :=
  decidable_of_iff' _ Description.keyed_iff

namespace Signature

theorem inputType_injective {a b : String} (h : inputType a = inputType b) : a = b := by
  have hl := congrArg String.toList h
  simp only [inputType, String.toList_append, List.append_assoc, List.append_cancel_left_eq] at hl
  exact String.toList_inj.1 (List.append_cancel_right hl)

theorem outputType_injective {a b : String} (h : outputType a = outputType b) : a = b := by
  have hl := congrArg String.toList h
  simp only [outputType, String.toList_append, List.append_assoc, List.append_cancel_left_eq] at hl
  exact String.toList_inj.1 (List.append_cancel_right hl)

/-- An input type ends in `Input`, an output type does not. -/
theorem inputType_ne_outputType (a b : String) : inputType a ≠ outputType b := by
  intro h
  have hl := congrArg (fun s => s.toList.reverse[3]?) h
  simp [inputType, outputType, String.toList_append] at hl

end Signature

namespace Catalog

/-! ### Reading a catalog -/

/-- The body of a type of an endpoint. -/
def typeBody? (catalog : Catalog) (service endpoint name : String) : Option String :=
  (catalog.types.at? service endpoint).bind fun types => types.value? name

/-- The body in the declaration of a shared shape. -/
def bodyOf? (name declared : String) : Option String :=
  if (sharedDeclaration name "").toList <+: declared.toList then
    some (String.ofList (declared.toList.drop (sharedDeclaration name "").toList.length))
  else none

/-- The body that is declared for a field name in the namespace of an endpoint. -/
def sharedBody? (catalog : Catalog) (service endpoint name : String) : Option String :=
  (((catalog.namespaces.at? service endpoint).bind fun namespaces =>
    namespaces.value? (sharedNamespace endpoint)).bind fun declarations =>
      declarations.value? name).bind (bodyOf? name)

theorem bodyOf?_sharedDeclaration (name body : String) :
    bodyOf? name (sharedDeclaration name body) = some body := by
  have hd : (sharedDeclaration name body).toList =
      (sharedDeclaration name "").toList ++ body.toList := by
    simp [sharedDeclaration, declaration, String.toList_append]
  rw [bodyOf?, hd, if_pos (List.prefix_append _ _), List.drop_left, String.ofList_toList]

/-- Two catalogs have the same types and namespaces for an endpoint. -/
structure SameAt (service endpoint : String) (a b : Catalog) : Prop where
  types : a.types.at? service endpoint = b.types.at? service endpoint
  namespaces : a.namespaces.at? service endpoint = b.namespaces.at? service endpoint

theorem SameAt.trans {service endpoint : String} {a b c : Catalog}
    (h : SameAt service endpoint a b) (h' : SameAt service endpoint b c) :
    SameAt service endpoint a c :=
  ⟨h.types.trans h'.types, h.namespaces.trans h'.namespaces⟩

/-- What a catalog holds for an endpoint with a registry: the types of its operations and the bodies
of its shared shapes. -/
structure Emitted (options : Options) (service endpoint : String) (operations : Operations)
    (registry : Registry) (catalog : Catalog) : Prop where
  isSome : (catalog.types.at? service endpoint).isSome = true
  typeBody : ∀ entry ∈ operations, ∀ type ∈ operationTypes options registry entry,
    catalog.typeBody? service endpoint type.1 = some type.2
  sharedBody {name body : String} (h : registry.registered.value? name = some body) :
    catalog.sharedBody? service endpoint name = some body

theorem Emitted.of_sameAt {options : Options} {service endpoint : String} {operations : Operations}
    {registry : Registry} {a b : Catalog}
    (h : Emitted options service endpoint operations registry a)
    (hs : SameAt service endpoint a b) :
    Emitted options service endpoint operations registry b where
  isSome := hs.types ▸ h.isSome
  typeBody := by
    intro entry he type ht
    rw [typeBody?, ← hs.types]
    exact h.typeBody entry he type ht
  sharedBody := by
    intro name body hv
    rw [sharedBody?, ← hs.namespaces]
    exact h.sharedBody hv

/-- The type of each direction of an operation is the text of its fields. -/
theorem Emitted.typeBody_of_direction {options : Options} {service endpoint : String}
    {operations : Operations} {registry : Registry} {catalog : Catalog}
    (h : Emitted options service endpoint operations registry catalog)
    {entry : String × Operation} (he : entry ∈ operations) {direction : String × Fields}
    (hd : direction ∈ [(Signature.inputType entry.1, entry.2.input),
      (Signature.outputType entry.1, entry.2.output)]) :
    catalog.typeBody? service endpoint direction.1 = some (registry.render options direction.2) := by
  refine h.typeBody entry he (direction.1, registry.render options direction.2) ?_
  simp only [List.mem_cons, List.not_mem_nil, or_false] at hd
  rcases hd with rfl | rfl <;> simp [operationTypes]

/-! ### One endpoint -/

/-- Make room for a service. -/
def withService (catalog : Catalog) (service : String) : Catalog :=
  if catalog.types.has service then catalog
  else
    { catalog with
      types := catalog.types.put service []
      methods := catalog.methods.put service []
      files := catalog.files.put service []
      namespaces := catalog.namespaces.put service [] }

theorem ensureEndpoint_eq (catalog : Catalog) (service endpoint file : String) :
    catalog.ensureEndpoint service endpoint file =
      if ((catalog.withService service).types.at? service endpoint).isSome then
        .ok (catalog.withService service)
      else (do
        let types ← (catalog.withService service).types.set? service endpoint []
        let methods ← (catalog.withService service).methods.set? service endpoint []
        let files ← (catalog.withService service).files.set? service endpoint file
        let namespaces ← (catalog.withService service).namespaces.set? service endpoint []
        .ok ⟨files, methods, types, namespaces, (catalog.withService service).warnings⟩) := rfl

section Endpoint

variable {options : Options} {service endpoint : String} {operations : Operations}
  {registry : Registry} {catalog next : Catalog}

/-- Room for a service changes nothing for a service that is there. -/
theorem sameAt_withService {service' : String} (hs : catalog.types.has service' = true)
    (endpoint' : String) : SameAt service' endpoint' catalog (catalog.withService service) := by
  unfold withService
  split
  · exact ⟨rfl, rfl⟩
  · -- a service that is missing is not the one that is there
    rename_i hn
    have hne : service ≠ service' := fun e => hn (e ▸ hs)
    exact ⟨(Table.at?_put_of_ne _ hne _ _).symm, (Table.at?_put_of_ne _ hne _ _).symm⟩

/-- Room for an endpoint changes nothing for another one. -/
theorem sameAt_ensureEndpoint {file : String}
    (h : catalog.ensureEndpoint service endpoint file = .ok next) {service' endpoint' : String}
    (hne : ¬ (service = service' ∧ endpoint = endpoint'))
    (hs : catalog.types.has service' = true) : SameAt service' endpoint' catalog next := by
  have h1 : SameAt service' endpoint' catalog (catalog.withService service) :=
    sameAt_withService hs endpoint'
  rw [ensureEndpoint_eq] at h
  split at h
  · cases h
    exact h1
  · obtain ⟨types, ht, h⟩ := exists_of_bind_eq_ok h
    obtain ⟨methods, -, h⟩ := exists_of_bind_eq_ok h
    obtain ⟨files, -, h⟩ := exists_of_bind_eq_ok h
    obtain ⟨namespaces, hn, h⟩ := exists_of_bind_eq_ok h
    cases h
    refine h1.trans ⟨?_, ?_⟩
    · rw [(Table.set?_eq_ok.1 ht).2, Table.at?_set, if_neg hne]
    · rw [(Table.set?_eq_ok.1 hn).2, Table.at?_set, if_neg hne]

theorem putEndpoint_eq (options : Options) (service endpoint : String) (operations : Operations)
    (registry : Registry) (catalog : Catalog) :
    catalog.putEndpoint options service endpoint operations registry =
      (if registry.registered.isEmpty then .ok catalog.namespaces
        else catalog.namespaces.update? service endpoint (putShared registry)) >>= fun namespaces =>
      (catalog.types.update? service endpoint fun types =>
        types.putAll (operations.flatMap (operationTypes options registry))) >>= fun types =>
      (catalog.methods.update? service endpoint fun methods =>
        methods.putAll (operations.flatMap operationMethods)) >>= fun methods =>
      .ok ⟨catalog.files, methods, types, namespaces, catalog.warnings⟩ := by
  unfold putEndpoint
  split <;> rfl

/-- What is put for an endpoint. -/
theorem putEndpoint_eq_ok
    (h : catalog.putEndpoint options service endpoint operations registry = .ok next) :
    (∃ types, catalog.types.at? service endpoint = some types ∧
      next.types = catalog.types.set service endpoint
        (types.putAll (operations.flatMap (operationTypes options registry)))) ∧
    (registry.registered = [] ∧ next.namespaces = catalog.namespaces ∨
      ∃ namespaces, catalog.namespaces.at? service endpoint = some namespaces ∧
        next.namespaces =
          catalog.namespaces.set service endpoint (putShared registry namespaces)) := by
  rw [putEndpoint_eq] at h
  obtain ⟨namespaces, hn, h⟩ := exists_of_bind_eq_ok h
  obtain ⟨types, ht, h⟩ := exists_of_bind_eq_ok h
  obtain ⟨methods, -, h⟩ := exists_of_bind_eq_ok h
  cases h
  refine ⟨Table.update?_eq_ok.1 ht, ?_⟩
  split at hn
  · rename_i he
    cases hn
    exact .inl ⟨List.isEmpty_iff.1 he, rfl⟩
  · exact .inr (Table.update?_eq_ok.1 hn)

theorem sameAt_putEndpoint
    (h : catalog.putEndpoint options service endpoint operations registry = .ok next)
    {service' endpoint' : String} (hne : ¬ (service = service' ∧ endpoint = endpoint')) :
    SameAt service' endpoint' catalog next := by
  obtain ⟨⟨types, -, ht⟩, hn⟩ := putEndpoint_eq_ok h
  refine ⟨by rw [ht, Table.at?_set, if_neg hne], ?_⟩
  rcases hn with ⟨-, hn⟩ | ⟨namespaces, -, hn⟩
  · rw [hn]
  · rw [hn, Table.at?_set, if_neg hne]

/-- A type belongs to one operation and one direction of it. -/
theorem eq_of_mem_operationTypes {entry other : String × Operation} {name text text' : String}
    (h : (name, text) ∈ operationTypes options registry entry)
    (h' : (name, text') ∈ operationTypes options registry other)
    (hk : entry.1 = other.1 → entry = other) : text = text' := by
  simp only [operationTypes, List.mem_cons, Prod.mk.injEq, List.not_mem_nil, or_false] at h h'
  rcases h with ⟨rfl, rfl⟩ | ⟨rfl, rfl⟩ <;> rcases h' with ⟨he, rfl⟩ | ⟨he, rfl⟩
  · rw [hk (Signature.inputType_injective he)]
  · exact absurd he (Signature.inputType_ne_outputType _ _)
  · exact absurd he.symm (Signature.inputType_ne_outputType _ _)
  · rw [hk (Signature.outputType_injective he)]

/-- The declaration of a shared shape is there under its field name. -/
theorem value?_putShared (hr : registry.registered.Distinct) {name body : String}
    (hv : registry.registered.value? name = some body) (namespaces : Namespaces) :
    ((Entries.value? (putShared registry namespaces) registry.ns).bind fun declarations =>
      declarations.value? name) = some (sharedDeclaration name body) := by
  rw [putShared, Entries.value?_put, if_pos rfl, Option.bind_some]
  refine Entries.value?_putAll_of_mem
    (List.mem_map.2 ⟨(name, body), Entries.mem_of_value? hv, rfl⟩) fun other hm => ?_
  obtain ⟨⟨key, value⟩, he, heq⟩ := List.mem_map.1 hm
  obtain ⟨rfl, rfl⟩ := Prod.mk.inj heq
  have hv' := Entries.value?_of_mem hr he
  rw [hv, Option.some.injEq] at hv'
  rw [hv']

/-- What is put for an endpoint is there. -/
theorem emitted_of_putEndpoint (ho : Entries.Distinct operations)
    (hr : registry.registered.Distinct) (hns : registry.ns = sharedNamespace endpoint)
    (h : catalog.putEndpoint options service endpoint operations registry = .ok next) :
    Emitted options service endpoint operations registry next := by
  obtain ⟨⟨types, -, ht⟩, hn⟩ := putEndpoint_eq_ok h
  have hat : next.types.at? service endpoint =
      some (types.putAll (operations.flatMap (operationTypes options registry))) := by
    rw [ht, Table.at?_set, if_pos ⟨rfl, rfl⟩]
  constructor
  · rw [hat]
    rfl
  · intro entry he type hm
    rw [typeBody?, hat]
    refine Entries.value?_putAll_of_mem (List.mem_flatMap.2 ⟨entry, he, hm⟩) fun text hm' => ?_
    obtain ⟨other, hother, hm'⟩ := List.mem_flatMap.1 hm'
    exact eq_of_mem_operationTypes hm' hm (Entries.eq_of_key_eq ho hother he)
  · intro name body hv
    rcases hn with ⟨he, -⟩ | ⟨namespaces, -, hn⟩
    · simp [he] at hv
    · rw [sharedBody?, hn, Table.at?_set, if_pos ⟨rfl, rfl⟩, Option.bind_some, ← hns,
        value?_putShared hr hv, Option.bind_some, bodyOf?_sharedDeclaration]

end Endpoint

/-! ### All endpoints -/

section Build

variable {options : Options}

theorem outcome_buildEndpoint (options : Options) (service endpoint : String)
    (operations : Operations) (catalog : Catalog) :
    (buildEndpoint options service endpoint operations catalog).outcome =
      catalog.ensureEndpoint service endpoint (endpointFile service endpoint) >>= fun catalog =>
        catalog.putEndpoint options service endpoint operations
          (settleEndpoint options endpoint operations).registry := by
  unfold buildEndpoint openEndpoint
  simp only [Traced.outcome_bind]
  cases catalog.ensureEndpoint service endpoint (endpointFile service endpoint) <;> rfl

theorem outcome_buildEndpoints_cons (options : Options) (service endpoint : String)
    (operations : Operations) (endpoints : List (String × Operations)) (catalog : Catalog) :
    (buildEndpoints options service ((endpoint, operations) :: endpoints) catalog).outcome =
      (buildEndpoint options service endpoint operations catalog).outcome >>= fun catalog =>
        (buildEndpoints options service endpoints catalog).outcome :=
  Traced.outcome_bind _ _

theorem outcome_build_cons (options : Options) (service : String) (endpoints : Entries Operations)
    (services : List (String × Entries Operations)) (catalog : Catalog) :
    (build options ((service, endpoints) :: services) catalog).outcome =
      (buildEndpoints options service endpoints catalog).outcome >>= fun catalog =>
        (build options services catalog).outcome :=
  Traced.outcome_bind _ _

variable {catalog next : Catalog} {service endpoint : String}

/-- Building another endpoint changes nothing for an endpoint that is there. -/
theorem sameAt_buildEndpoint {service' endpoint' : String} {operations : Operations}
    (h : (buildEndpoint options service' endpoint' operations catalog).outcome = .ok next)
    (hne : ¬ (service' = service ∧ endpoint' = endpoint))
    (hs : (catalog.types.at? service endpoint).isSome = true) :
    SameAt service endpoint catalog next := by
  rw [outcome_buildEndpoint] at h
  obtain ⟨middle, he, hp⟩ := exists_of_bind_eq_ok h
  exact (sameAt_ensureEndpoint he hne (Table.has_of_at? hs)).trans (sameAt_putEndpoint hp hne)

theorem sameAt_buildEndpoints {service' : String} {endpoints : List (String × Operations)}
    (hne : ∀ entry ∈ endpoints, ¬ (service' = service ∧ entry.1 = endpoint))
    (h : (buildEndpoints options service' endpoints catalog).outcome = .ok next)
    (hs : (catalog.types.at? service endpoint).isSome = true) :
    SameAt service endpoint catalog next := by
  induction endpoints generalizing catalog with
  | nil =>
    cases h
    exact ⟨rfl, rfl⟩
  | cons entry endpoints ih =>
    obtain ⟨endpoint', operations⟩ := entry
    rw [outcome_buildEndpoints_cons] at h
    obtain ⟨middle, he, h⟩ := exists_of_bind_eq_ok h
    have h1 := sameAt_buildEndpoint he (hne _ List.mem_cons_self) hs
    exact h1.trans (ih (fun entry hm => hne entry (List.mem_cons_of_mem _ hm)) h (h1.types ▸ hs))

theorem sameAt_build {description : Description}
    (hne : ∀ entry ∈ description, entry.1 ≠ service)
    (h : (build options description catalog).outcome = .ok next)
    (hs : (catalog.types.at? service endpoint).isSome = true) :
    SameAt service endpoint catalog next := by
  induction description generalizing catalog with
  | nil =>
    cases h
    exact ⟨rfl, rfl⟩
  | cons entry description ih =>
    obtain ⟨service', endpoints⟩ := entry
    rw [outcome_build_cons] at h
    obtain ⟨middle, he, h⟩ := exists_of_bind_eq_ok h
    have hservice := hne _ List.mem_cons_self
    have h1 := sameAt_buildEndpoints (fun _ _ hc => hservice hc.1) he hs
    exact h1.trans (ih (fun entry hm => hne entry (List.mem_cons_of_mem _ hm)) h (h1.types ▸ hs))

/-- The registry of an endpoint after all its passes. -/
theorem settleEndpoint_spec (options : Options) (endpoint : String) (operations : Operations) :
    (settleEndpoint options endpoint operations).registry.Idle ∧
      (settleEndpoint options endpoint operations).registry.ns = sharedNamespace endpoint := by
  have hi : ∀ k, ((Registry.pass options.known operations)^[k]
      { ns := sharedNamespace endpoint }).Idle :=
    (Registry.idle_fresh (sharedNamespace_ne_empty endpoint)).iterate_pass options.known operations
  have hns := Registry.ns_iterate_pass options.known operations { ns := sharedNamespace endpoint }
  unfold settleEndpoint
  rcases settle_cases options.known options.maxPasses endpoint operations
    { ns := sharedNamespace endpoint } with ⟨k, -, he, -, -⟩ | ⟨he, -⟩
  · rw [he]
    exact ⟨hi _, hns _⟩
  · rw [he]
    exact ⟨hi _, hns _⟩

theorem emitted_of_buildEndpoint {operations : Operations} (ho : Entries.Distinct operations)
    (h : (buildEndpoint options service endpoint operations catalog).outcome = .ok next) :
    Emitted options service endpoint operations
      (settleEndpoint options endpoint operations).registry next := by
  rw [outcome_buildEndpoint] at h
  obtain ⟨middle, -, hp⟩ := exists_of_bind_eq_ok h
  obtain ⟨hi, hns⟩ := settleEndpoint_spec options endpoint operations
  exact emitted_of_putEndpoint ho hi.distinct hns hp

theorem emitted_of_buildEndpoints {endpoints : Entries Operations} {operations : Operations}
    (hd : Entries.Distinct endpoints) (he : (endpoint, operations) ∈ endpoints)
    (ho : Entries.Distinct operations)
    (h : (buildEndpoints options service endpoints catalog).outcome = .ok next) :
    Emitted options service endpoint operations
      (settleEndpoint options endpoint operations).registry next := by
  induction endpoints generalizing catalog with
  | nil => cases he
  | cons entry endpoints ih =>
    obtain ⟨first, others⟩ := entry
    obtain ⟨hk, hd⟩ := List.nodup_cons.1 hd
    rw [outcome_buildEndpoints_cons] at h
    obtain ⟨middle, hb, hrest⟩ := exists_of_bind_eq_ok h
    rcases List.mem_cons.1 he with heq | he
    · -- it is built now, and no other endpoint of this name comes later
      obtain ⟨rfl, rfl⟩ := Prod.mk.inj heq
      have hm := emitted_of_buildEndpoint ho hb
      refine hm.of_sameAt (sameAt_buildEndpoints (fun entry hentry hc => hk ?_) hrest hm.isSome)
      have hmem := Entries.mem_keys_of_mem hentry
      rwa [hc.2] at hmem
    · exact ih hd he hrest

/-- **What is put for an endpoint is there when the whole description is built.** -/
theorem emitted_of_build {description : Description} (hd : description.Keyed)
    {endpoints : Entries Operations} {operations : Operations}
    (hs : (service, endpoints) ∈ description) (he : (endpoint, operations) ∈ endpoints)
    (h : (build options description catalog).outcome = .ok next) :
    Emitted options service endpoint operations
      (settleEndpoint options endpoint operations).registry next := by
  have hde := hd.endpoints _ hs
  have hdo := hd.operations _ hs _ he
  have hds := hd.services
  clear hd
  induction description generalizing catalog with
  | nil => cases hs
  | cons entry description ih =>
    obtain ⟨first, others⟩ := entry
    obtain ⟨hk, hds⟩ := List.nodup_cons.1 hds
    rw [outcome_build_cons] at h
    obtain ⟨middle, hb, hrest⟩ := exists_of_bind_eq_ok h
    rcases List.mem_cons.1 hs with heq | hs
    · obtain ⟨rfl, rfl⟩ := Prod.mk.inj heq
      have hm := emitted_of_buildEndpoints hde he hdo hb
      refine hm.of_sameAt (sameAt_build (fun entry hentry hc => hk ?_) hrest hm.isSome)
      have hmem := Entries.mem_keys_of_mem hentry
      rwa [hc] at hmem
    · exact ih hs hrest hds

end Build

end Catalog

end SoapTypes
