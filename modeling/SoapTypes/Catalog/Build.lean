import SoapTypes.Catalog.Basic
import SoapTypes.Hoist.Settle
import SoapTypes.Schema.Basic

/-!
# Building catalogs

For each endpoint of a description the shared shapes are settled, and then the catalog gets the
declarations of these shapes, the types of all inputs and outputs, and two signatures for every
operation. The types of the schema go to an endpoint of their own.
-/

namespace SoapTypes

/-- How declarations are written. -/
structure Options where
  quoting : Quoting := .asNeeded
  known : KnownEnums := []
  maxPasses : Int := 32
  deriving Inhabited

namespace Signature

/-- The name of the type of an operation's input. -/
def inputType (operation : String) : String := "I" ++ operation ++ "Input"

/-- The name of the type of an operation's output. -/
def outputType (operation : String) : String := "I" ++ operation ++ "Output"

/-- The signature of a method that calls back with its result. -/
def callback (operation : String) : String :=
  "(input: Partial<" ++ inputType operation ++ ">, cb: (err: any | null, result: " ++
    outputType operation ++
    ", rawResult: string, soapHeader: \x7b[k: string]: any; \x7d, rawRequest: string) => any, " ++
    "options?: any, extraHeaders?: any) => void"

/-- The signature of a method that promises its result. -/
def promise (operation : String) : String :=
  "(input: Partial<" ++ inputType operation ++ ">, options?: any, extraHeaders?: any) => " ++
    "Promise<[" ++ outputType operation ++ ", string, \x7b[k: string]: any; \x7d, string]>"

/-- The name of the method that promises its result. -/
def promiseName (operation : String) : String := operation ++ "Async"

end Signature

/-- The declaration of a type. -/
def declaration (name body : String) : String := "export type " ++ name ++ " = " ++ body

/-- The declaration of the shape that is shared under a field name. -/
def sharedDeclaration (name body : String) : String := declaration ("I" ++ name) body

/-- The namespace of the shared shapes of an endpoint. -/
def sharedNamespace (endpoint : String) : String := endpoint ++ "Types"

/-- The text of an object of fields, with references to what a registry shares. -/
def Registry.render (registry : Registry) (options : Options) (fields : Fields) : String :=
  (registry.shape options.known fields).render options.quoting

namespace Catalog

/-- The types of an operation, input before output. -/
def operationTypes (options : Options) (registry : Registry) (entry : String × Operation) :
    List (String × String) :=
  [(Signature.inputType entry.1, registry.render options entry.2.input),
    (Signature.outputType entry.1, registry.render options entry.2.output)]

/-- The methods of an operation. -/
def operationMethods (entry : String × Operation) : List (String × String) :=
  [(entry.1, Signature.callback entry.1),
    (Signature.promiseName entry.1, Signature.promise entry.1)]

/-- Put the shared shapes of a registry among the namespaces of an endpoint. -/
def putShared (registry : Registry) (namespaces : Namespaces) : Namespaces :=
  namespaces.put registry.ns (((namespaces.value? registry.ns).getD []).putAll
    (registry.registered.map fun entry => (entry.1, sharedDeclaration entry.1 entry.2)))

/-- Put the declarations of an endpoint whose shared shapes are settled into a catalog. -/
def putEndpoint (options : Options) (service endpoint : String) (operations : Operations)
    (registry : Registry) (catalog : Catalog) : Except Fault Catalog := do
  let namespaces ←
    if registry.registered.isEmpty then .ok catalog.namespaces
    else catalog.namespaces.update? service endpoint (putShared registry)
  let types ← catalog.types.update? service endpoint fun types =>
    types.putAll (operations.flatMap (operationTypes options registry))
  let methods ← catalog.methods.update? service endpoint fun methods =>
    methods.putAll (operations.flatMap operationMethods)
  return { catalog with namespaces, types, methods }

/-- The file of an endpoint. -/
def endpointFile (service endpoint : String) : String := service ++ "/" ++ endpoint

/-- The settled registry of an endpoint, starting from nothing. -/
def settleEndpoint (options : Options) (endpoint : String) (operations : Operations) : Settled :=
  settle options.known options.maxPasses endpoint operations { ns := sharedNamespace endpoint }

/-- The notice that the work on an endpoint begins. -/
def endpointNotice (service endpoint : String) : Notice :=
  .debug ("-- " ++ service ++ "." ++ endpoint)

/-- Begin the work on an endpoint: make room for it. -/
def openEndpoint (service endpoint : String) (catalog : Catalog) : Traced Fault Catalog := do
  Traced.notice (endpointNotice service endpoint)
  Traced.ofExcept (catalog.ensureEndpoint service endpoint (endpointFile service endpoint))

/-- Build an endpoint into a catalog. -/
def buildEndpoint (options : Options) (service endpoint : String) (operations : Operations)
    (catalog : Catalog) : Traced Fault Catalog := do
  let catalog ← openEndpoint service endpoint catalog
  let settled := settleEndpoint options endpoint operations
  Traced.notice settled.notice
  Traced.ofExcept (catalog.putEndpoint options service endpoint operations settled.registry)

/-- Build the endpoints of a service into a catalog. -/
def buildEndpoints (options : Options) (service : String) :
    List (String × Operations) → Catalog → Traced Fault Catalog
  | [], catalog => return catalog
  | (endpoint, operations) :: endpoints, catalog => do
    let catalog ← buildEndpoint options service endpoint operations catalog
    buildEndpoints options service endpoints catalog

/-- Build a description into a catalog. -/
def build (options : Options) : Description → Catalog → Traced Fault Catalog
  | [], catalog => return catalog
  | (service, endpoints) :: services, catalog => do
    let catalog ← buildEndpoints options service endpoints catalog
    build options services catalog

/-- Put the declarations of a schema into a catalog: the common service holds them and nothing
else. -/
def addSchemas (schemas : Schemas) (catalog : Catalog) : Traced Fault Catalog := do
  let text ← schemas.declare
  return { catalog with
    files := catalog.files.put commonService [(commonEndpoint, commonEndpoint)]
    types := catalog.types.put commonService [(commonEndpoint, [(finishedText, text)])] }

/-- The catalog of a description and a schema. The enumerations of the schema are known beside those
of the options, and the warnings of the work stay with the catalog. -/
def generate (options : Options) (description : Description) (schemas : Schemas) :
    Traced Fault Catalog :=
  let work : Traced Fault Catalog := do
    let enums ← Traced.ofExcept schemas.enumNames
    let catalog ← build { options with known := options.known ++ enums } description empty
    if schemas.isEmpty then return catalog else addSchemas schemas catalog
  { work with
    outcome := work.outcome.map fun catalog =>
      { catalog with warnings := catalog.warnings ++ work.warnings } }

end Catalog

end SoapTypes
