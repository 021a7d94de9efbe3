import SoapTypes.Catalog.Build

/-!
# Building from unchecked descriptions

A description that nobody has checked is read while it is built: a value of the wrong form stops the
work when its turn comes, and not before. The operations of an endpoint are looked at by the first
pass over them, or, if there is no pass, when their types are written.

* `settleUnchecked` makes the passes, `Catalog.buildUnchecked` builds a description.
* `Catalog.buildUncheckedEndpoint_of_ofJson?`: operations that can be read are built like checked
  ones.
-/

namespace SoapTypes

/-- Make passes over the operations of an endpoint that nobody has checked. -/
def settleUnchecked (known : KnownEnums) (limit : Int) (endpoint : String) (operations : Json)
    (registry : Registry) : Except Fault Settled :=
  if limit < 1 then .ok (settle known limit endpoint [] registry)
  else
    match Operations.ofJson? operations with
    | some operations => .ok (settle known limit endpoint operations registry)
    | none => .error .wrongKind

/-- Without a pass the operations do not matter. -/
theorem settle_of_lt_one {limit : Int} (h : limit < 1) (known : KnownEnums) (endpoint : String)
    (operations others : Operations) (registry : Registry) :
    settle known limit endpoint operations registry =
      settle known limit endpoint others registry := by
  have h0 : limit.toNat = 0 := by omega
  simp [settle, h0, Registry.iterate]

theorem settleUnchecked_of_ofJson? {value : Json} {operations : Operations}
    (h : Operations.ofJson? value = some operations) (known : KnownEnums) (limit : Int)
    (endpoint : String) (registry : Registry) :
    settleUnchecked known limit endpoint value registry =
      .ok (settle known limit endpoint operations registry) := by
  unfold settleUnchecked
  split
  · rename_i hl
    rw [settle_of_lt_one hl known endpoint [] operations registry]
  · rw [h]

namespace Catalog

/-- Put the declarations of an endpoint into a catalog. What is missing in the catalog is found out
before the operations are looked at. -/
def putUnchecked (options : Options) (service endpoint : String) (operations : Json)
    (registry : Registry) (catalog : Catalog) : Except Fault Catalog :=
  match Operations.ofJson? operations with
  | some operations => catalog.putEndpoint options service endpoint operations registry
  | none => do
    let _ ← catalog.putEndpoint options service endpoint [] registry
    .error .wrongKind

/-- Build an endpoint into a catalog. -/
def buildUncheckedEndpoint (options : Options) (service endpoint : String) (operations : Json)
    (catalog : Catalog) : Traced Fault Catalog := do
  let catalog ← openEndpoint service endpoint catalog
  let settled ← Traced.ofExcept (settleUnchecked options.known options.maxPasses endpoint operations
    { ns := sharedNamespace endpoint })
  Traced.notice settled.notice
  Traced.ofExcept (catalog.putUnchecked options service endpoint operations settled.registry)

theorem buildUncheckedEndpoint_of_ofJson? {value : Json} {operations : Operations}
    (h : Operations.ofJson? value = some operations) (options : Options)
    (service endpoint : String) (catalog : Catalog) :
    buildUncheckedEndpoint options service endpoint value catalog =
      buildEndpoint options service endpoint operations catalog := by
  unfold buildUncheckedEndpoint buildEndpoint settleEndpoint
  simp only [settleUnchecked_of_ofJson? h, putUnchecked, h]
  rfl

/-- Build the endpoints of a service into a catalog. -/
def buildUncheckedEndpoints (options : Options) (service : String) :
    List (String × Json) → Catalog → Traced Fault Catalog
  | [], catalog => return catalog
  | (endpoint, operations) :: endpoints, catalog => do
    let catalog ← buildUncheckedEndpoint options service endpoint operations catalog
    buildUncheckedEndpoints options service endpoints catalog

/-- Build services into a catalog. -/
def buildUncheckedServices (options : Options) :
    List (String × Json) → Catalog → Traced Fault Catalog
  | [], catalog => return catalog
  | (service, .object endpoints) :: services, catalog => do
    let catalog ← buildUncheckedEndpoints options service endpoints catalog
    buildUncheckedServices options services catalog
  | _ :: _, _ => Traced.fail .wrongKind

/-- Build a description into a catalog. -/
def buildUnchecked (options : Options) (description : Json) (catalog : Catalog) :
    Traced Fault Catalog :=
  match description with
  | .object services => buildUncheckedServices options services catalog
  | _ => Traced.fail .wrongKind

end Catalog

end SoapTypes
