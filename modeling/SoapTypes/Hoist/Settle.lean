import SoapTypes.Description
import SoapTypes.Hoist.Registry
import SoapTypes.Traced

/-!
# Passes until the registry rests

A pass builds all trees of an endpoint against its registry and then commits what it met. Sharing a
shape changes the texts of the shapes around it, so passes are repeated until one leaves the
registry as it was, or until their number reaches a limit.
-/

namespace SoapTypes

namespace Registry

/-- Meet the branches of both trees of an operation. -/
def meetOperation (known : KnownEnums) (registry : Registry) (operation : Operation) : Registry :=
  (registry.meet known operation.input).meet known operation.output

/-- Meet the branches of all operations. -/
def meetAll (known : KnownEnums) (operations : Operations) (registry : Registry) : Registry :=
  operations.foldl (fun acc entry => acc.meetOperation known entry.2) registry

/-- One pass. -/
def pass (known : KnownEnums) (operations : Operations) (registry : Registry) : Registry :=
  (registry.meetAll known operations).commit

/-- Whether two registries share the same texts under the same names. -/
def sameShared (a b : Registry) : Bool := Entries.agree (· == ·) a.registered b.registered

/-- Repeat a step until it changes nothing that is shared, at most `fuel` times: the number of
steps, if that happens, and the last registry. -/
def iterate (step : Registry → Registry) : (fuel : Nat) → Registry → Option Nat × Registry
  | 0, registry => (none, registry)
  | fuel + 1, registry =>
    let next := step registry
    if sameShared registry next then (some 1, next)
    else
      let (steps, last) := iterate step fuel next
      (steps.map (· + 1), last)

end Registry

/-- The outcome of the passes over an endpoint: how many there were, the registry, and what there is
to say about it. -/
structure Settled where
  passes : Int
  registry : Registry
  notice : Notice

/-- Make passes over the operations of an endpoint until the registry rests, at most `limit` of
them. A limit that is reached is the number of passes, whatever it is. -/
def settle (known : KnownEnums) (limit : Int) (endpoint : String) (operations : Operations)
    (registry : Registry) : Settled :=
  match registry.iterate (Registry.pass known operations) limit.toNat with
  | (some steps, last) =>
    ⟨steps, last, .debug (endpoint ++ ": stable after " ++ toString steps ++ " pass(es)")⟩
  | (none, last) =>
    ⟨limit, last, .warning ("Aborted nested interface changes for port " ++ endpoint ++
      " after " ++ toString limit ++ " passes")⟩

end SoapTypes
