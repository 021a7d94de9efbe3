import SoapTypes.Catalog.Basic

/-!
# Merging catalogs

A catalog is merged into another one endpoint by endpoint, over the endpoints that have a file in
it. What both have is united entry by entry, and the one that is merged in wins; a service or an
endpoint that is new is taken over as a whole.
-/

namespace SoapTypes.Catalog

/-- Unite the declarations of two tables of namespaces. -/
def uniteNamespaces (into more : Namespaces) : Namespaces :=
  more.foldl (fun acc entry => acc.alter entry.1 fun held =>
    match held with
    | none => entry.2
    | some declarations => declarations.putAll entry.2) into

/-- The value of an endpoint in a table, or a blank one. -/
def endpointOr {α : Type} (table : Table (Entries α)) (service endpoint : String) : Entries α :=
  (table.at? service endpoint).getD []

/-- Merge an endpoint of `b` with the given file into a catalog that has the service. -/
def mergeEndpoint (b : Catalog) (service : String) (x : Catalog) (entry : String × String) :
    Catalog :=
  let (endpoint, file) := entry
  let methods := endpointOr b.methods service endpoint
  let types := endpointOr b.types service endpoint
  let namespaces := endpointOr b.namespaces service endpoint
  if (x.files.at? service endpoint).isSome then
    { x with
      files := x.files.set service endpoint file
      methods := x.methods.set service endpoint
        ((endpointOr x.methods service endpoint).putAll methods)
      types := x.types.set service endpoint ((endpointOr x.types service endpoint).putAll types)
      namespaces := x.namespaces.set service endpoint
        (uniteNamespaces (endpointOr x.namespaces service endpoint) namespaces) }
  else
    { x with
      files := x.files.set service endpoint file
      methods := x.methods.set service endpoint methods
      types := x.types.set service endpoint types
      namespaces := x.namespaces.set service endpoint namespaces }

/-- Merge a service of `b` with the given files into a catalog. -/
def mergeService (b x : Catalog) (entry : String × Entries String) : Catalog :=
  let (service, endpoints) := entry
  if x.files.has service then endpoints.foldl (mergeEndpoint b service) x
  else
    { x with
      files := x.files.put service endpoints
      methods := x.methods.put service ((b.methods.value? service).getD [])
      types := x.types.put service ((b.types.value? service).getD [])
      namespaces := x.namespaces.put service ((b.namespaces.value? service).getD []) }

/-- Merge `b` into `a`. -/
def merge (a b : Catalog) : Catalog :=
  b.files.foldl (mergeService b) { a with warnings := a.warnings ++ b.warnings }

/-- Merge catalogs into the first of them, one after the other. -/
def mergeAll (a : Catalog) (bs : List Catalog) : Catalog := bs.foldl merge a

end SoapTypes.Catalog
