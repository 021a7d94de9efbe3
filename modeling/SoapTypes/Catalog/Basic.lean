import SoapTypes.Entries
import SoapTypes.Fault
import SoapTypes.Text.Display

/-!
# Catalogs

A catalog holds what is to be written: for every service and endpoint a file, the signatures of its
methods, the bodies of its types, and its namespaces with their declarations. The four tables are
kept apart, each by service and endpoint.
-/

namespace SoapTypes

/-- Values by service and endpoint. -/
abbrev Table (α : Type) := Entries (Entries α)

namespace Table

variable {α : Type}

/-- The value of an endpoint. -/
def at? (table : Table α) (service endpoint : String) : Option α :=
  (table.value? service).bind fun endpoints => endpoints.value? endpoint

/-- Set the value of an endpoint, in a service that may be new. -/
def set (table : Table α) (service endpoint : String) (value : α) : Table α :=
  table.put service (((table.value? service).getD []).put endpoint value)

/-- Set the value of an endpoint in a service that has to be there. -/
def set? (table : Table α) (service endpoint : String) (value : α) : Except Fault (Table α) :=
  match table.value? service with
  | none => .error .missingEntry
  | some endpoints => .ok (table.put service (endpoints.put endpoint value))

/-- Replace the value of an endpoint that has to be there. -/
def update? (table : Table α) (service endpoint : String) (f : α → α) : Except Fault (Table α) :=
  match table.at? service endpoint with
  | none => .error .missingEntry
  | some value => .ok (table.set service endpoint (f value))

/-- After a `set` the endpoint has the new value and every other endpoint the value it had. -/
theorem at?_set (table : Table α) (service endpoint : String) (value : α)
    (service' endpoint' : String) :
    (table.set service endpoint value).at? service' endpoint' =
      if service = service' ∧ endpoint = endpoint' then some value
      else table.at? service' endpoint' := by
  unfold at? set
  rw [Entries.value?_put]
  by_cases hs : service = service'
  · subst hs
    by_cases he : endpoint = endpoint'
    · simp [he]
    · cases h : table.value? service <;> simp [he]
  · simp [hs]

end Table

/-- Declarations by namespace and name. -/
abbrev Namespaces := Entries (Entries String)

/-- What is to be written, and the warnings that arose on the way. -/
structure Catalog where
  files : Table String := []
  methods : Table (Entries String) := []
  types : Table (Entries String) := []
  namespaces : Table Namespaces := []
  warnings : List String := []
  deriving Repr, Inhabited

namespace Catalog

/-- The catalog without entries. -/
def empty : Catalog := {}

/-- The service of the types that all endpoints have in common. -/
def commonService : String := "Common"

/-- The endpoint of the types that all endpoints have in common. -/
def commonEndpoint : String := "Types"

/-- The name of a type whose body is finished text with declarations of its own. -/
def finishedText : String := "GeneratedDataString"

/-- Make room for an endpoint. The types decide whether a service or an endpoint is there: a service
that is new to them starts empty in all tables. -/
def ensureEndpoint (catalog : Catalog) (service endpoint file : String) : Except Fault Catalog := do
  let catalog :=
    if catalog.types.has service then catalog
    else
      { catalog with
        types := catalog.types.put service []
        methods := catalog.methods.put service []
        files := catalog.files.put service []
        namespaces := catalog.namespaces.put service [] }
  if (catalog.types.at? service endpoint).isSome then return catalog
  else
    return { catalog with
      types := ← catalog.types.set? service endpoint []
      methods := ← catalog.methods.set? service endpoint []
      files := ← catalog.files.set? service endpoint file
      namespaces := ← catalog.namespaces.set? service endpoint [] }

/-- Whether two catalogs hold the same entries. Neither order nor warnings count. -/
def same (a b : Catalog) : Bool :=
  Entries.agree (Entries.agree (· == ·)) a.files b.files &&
    Entries.agree (Entries.agree (Entries.agree (· == ·))) a.methods b.methods &&
    Entries.agree (Entries.agree (Entries.agree (· == ·))) a.types b.types &&
    Entries.agree (Entries.agree (Entries.agree (Entries.agree (· == ·)))) a.namespaces b.namespaces

/-- Entries as a diagnostic shows them, given the shown values. -/
def displayEntries (entries : Entries String) : String :=
  "\x7b" ++ Text.joinWith ", " (entries.map fun entry =>
    Text.display entry.1 ++ ": " ++ entry.2) ++ "\x7d"

/-- A catalog as a diagnostic shows it: its files. -/
def display (catalog : Catalog) : String :=
  "TypedWsdl(files=" ++ displayEntries (catalog.files.map fun (service, endpoints) =>
    (service, displayEntries (endpoints.map fun (endpoint, file) =>
      (endpoint, Text.display file)))) ++ ")"

end Catalog

end SoapTypes
