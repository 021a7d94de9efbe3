import SoapTypes.Shape.Build

/-!
# Shapes shared inside an endpoint

A registry belongs to one endpoint. It holds the texts that are shared under field names, and the
candidates that the current pass has met.

* `Registry.record` notes a branch: one that agrees with the shared text of its name leaves no
  trace, a first candidate is noted, and a second, different one makes the name a conflict.
* `Registry.commit` ends a pass: a candidate is shared from now on, a conflict no longer.
-/

namespace SoapTypes

/-- The shared texts of an endpoint, and the candidates of the current pass, where `none` marks a
name with two different texts. -/
structure Registry where
  ns : String
  registered : Entries String := []
  candidates : Entries (Option String) := []
  deriving DecidableEq, Repr, Inhabited

namespace Registry

/-- The reference to the shape that is shared under a field name. -/
def reference (registry : Registry) (name : String) : String := registry.ns ++ ".I" ++ name

/-- The reference that stands for a branch, if its text is shared under its field name. -/
def reference? (registry : Registry) (name body : String) : Option String :=
  if registry.registered.value? name = some body then some (registry.reference name) else none

/-- Note a branch that was met. -/
def record (registry : Registry) (name body : String) : Registry :=
  if registry.registered.value? name = some body then registry
  else
    match registry.candidates.value? name with
    | none => { registry with candidates := registry.candidates.put name (some body) }
    | some held =>
      if held = some body then registry
      else { registry with candidates := registry.candidates.put name none }

/-- Note branches one after the other. -/
def recordAll (registry : Registry) (branches : List (String × String)) : Registry :=
  branches.foldl (fun acc branch => acc.record branch.1 branch.2) registry

/-- Offer a branch: the reference that stands for it, and the registry that has met it. -/
def offer (registry : Registry) (name body : String) : Option String × Registry :=
  (registry.reference? name body, registry.record name body)

/-- Put a candidate among the shared texts, or take a conflict out. -/
def promote (registered : Entries String) (candidate : String × Option String) : Entries String :=
  match candidate.2 with
  | some body => registered.put candidate.1 body
  | none => registered.remove candidate.1

/-- End a pass: its candidates take effect, and no candidate remains. -/
def commit (registry : Registry) : Registry :=
  { registry with
    registered := registry.candidates.foldl promote registry.registered
    candidates := [] }

/-- Whether branches are shared at all: only an endpoint with a namespace has room for them. -/
def isActive (registry : Registry) : Bool := !registry.ns.isEmpty

/-- The references of a registry. -/
def references (registry : Registry) : References :=
  if registry.isActive then registry.reference? else fun _ _ => none

/-- The shape of an object of fields, with references to what is shared. -/
def shape (registry : Registry) (known : KnownEnums) (fields : Fields) : Shape :=
  Shape.ofFields known registry.references fields

/-- Note all branches below an object of fields. -/
def meet (registry : Registry) (known : KnownEnums) (fields : Fields) : Registry :=
  if registry.isActive then
    registry.recordAll (Shape.branchTexts known registry.references fields)
  else registry

@[simp] theorem registered_record (registry : Registry) (name body : String) :
    (registry.record name body).registered = registry.registered := by
  unfold record
  split
  · rfl
  · split
    · rfl
    · split <;> rfl

@[simp] theorem ns_record (registry : Registry) (name body : String) :
    (registry.record name body).ns = registry.ns := by
  unfold record
  split
  · rfl
  · split
    · rfl
    · split <;> rfl

/-- A pass does not change what is shared before it ends. -/
@[simp] theorem registered_recordAll (registry : Registry) (branches : List (String × String)) :
    (registry.recordAll branches).registered = registry.registered := by
  induction branches generalizing registry with
  | nil => rfl
  | cons branch branches ih =>
    have h := ih (registry.record branch.1 branch.2)
    simpa [recordAll] using h

@[simp] theorem candidates_commit (registry : Registry) : registry.commit.candidates = [] := rfl

@[simp] theorem ns_commit (registry : Registry) : registry.commit.ns = registry.ns := rfl

end Registry

end SoapTypes
