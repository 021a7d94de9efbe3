import SoapTypes.Catalog.Build
import SoapTypes.Proofs.Passes

/-!
# Enumerations that have to be known

The enumerations that are known are read only when a leaf is resolved. So everything that is built
from an endpoint is the same for two sets of them that resolve its leaves alike, and more of them
make a difference only to a leaf that lists a keyword of facets among its values.

* `FieldTree.fieldLeaves` lists the leaves of an object, each with the namespace of its types.
* `Shape.leafAlike_of_indifferent`: which leaves more enumerations make no difference to.
* `Shape.build_known_congr` and `settle_known_congr`: what is built and shared depends on how the
  leaves are resolved.
-/

namespace SoapTypes

namespace FieldTree

mutual

/-- The labels of the leaves of a member, each with the namespace of its types. -/
def leaves (targetNamespace : Option String) : FieldTree → List (Option String × String)
  | .leaf label => [(targetNamespace, label)]
  | .branch members => allLeaves (targetNamespace? members) members

/-- The labels of the leaves of some members, metadata left out. -/
def allLeaves (targetNamespace : Option String) :
    List (String × FieldTree) → List (Option String × String)
  | [] => []
  | (key, tree) :: members =>
    if isMetadata key then allLeaves targetNamespace members
    else tree.leaves targetNamespace ++ allLeaves targetNamespace members

end

/-- The labels of the leaves of an object of fields, each with the namespace of its types. -/
def fieldLeaves (fields : Fields) : List (Option String × String) :=
  allLeaves (targetNamespace? fields) fields

theorem allLeaves_cons_metadata {key : String} (h : isMetadata key = true)
    (targetNamespace : Option String) (tree : FieldTree) (members : List (String × FieldTree)) :
    allLeaves targetNamespace ((key, tree) :: members) = allLeaves targetNamespace members := by
  simp [allLeaves, h]

theorem allLeaves_cons_field {key : String} (h : isMetadata key = false)
    (targetNamespace : Option String) (tree : FieldTree) (members : List (String × FieldTree)) :
    allLeaves targetNamespace ((key, tree) :: members) =
      tree.leaves targetNamespace ++ allLeaves targetNamespace members := by
  simp [allLeaves, h]

end FieldTree

/-- The labels of all leaves of the operations, each with the namespace of its types. -/
def Operations.leaves (operations : Operations) : List (Option String × String) :=
  operations.trees.flatMap FieldTree.fieldLeaves

namespace Shape

open FieldTree

/-! ### Leaves -/

/-- Two sets of known enumerations resolve a leaf alike. -/
def LeafAlike (known known' : KnownEnums) (leaf : Option String × String) : Prop :=
  ∀ array, resolveLeaf known leaf.1 array leaf.2 = resolveLeaf known' leaf.1 array leaf.2

/-- A leaf that more known enumerations make no difference to: it is none of them or known without
them, or its type is a primitive, or none of its values is a keyword of facets. -/
def Indifferent (known enums : KnownEnums) (leaf : Option String × String) : Prop :=
  qualifiedName leaf.1 (LeafLabel.parse leaf.2).displayName ∈ enums →
    qualifiedName leaf.1 (LeafLabel.parse leaf.2).displayName ∈ known ∨
      (Primitive.ofSchemaType? (LeafLabel.parse leaf.2).localBaseType).isSome = true ∨
      ∀ value ∈ (LeafLabel.parse leaf.2).facetValues, value ∉ facetKeywords

instance (known enums : KnownEnums) (leaf : Option String × String) :
    Decidable (Indifferent known enums leaf) :=
  inferInstanceAs (Decidable (_ → _))

theorem leafAlike_of_indifferent {known enums : KnownEnums} {leaf : Option String × String}
    (h : Indifferent known enums leaf) : LeafAlike known (known ++ enums) leaf := by
  obtain ⟨targetNamespace, text⟩ := leaf
  have htype : leafType known (qualifiedName targetNamespace (LeafLabel.parse text).displayName)
        (LeafLabel.parse text) =
      leafType (known ++ enums) (qualifiedName targetNamespace (LeafLabel.parse text).displayName)
        (LeafLabel.parse text) := by
    unfold Indifferent at h
    generalize hq : qualifiedName targetNamespace (LeafLabel.parse text).displayName = qualified
      at h ⊢
    generalize LeafLabel.parse text = label at h ⊢
    unfold leafType
    cases hp : Primitive.ofSchemaType? label.localBaseType with
    | some primitive => rfl
    | none =>
      -- without a primitive the literals decide, and these are kept as a whole or lack nothing
      have hliterals :
          literals known qualified label = literals (known ++ enums) qualified label := by
        unfold literals
        by_cases hk : qualified ∈ known
        · simp [hk]
        · by_cases he : qualified ∈ enums
          · rcases h he with h | h | h
            · exact absurd h hk
            · simp [hp] at h
            · simpa [hk, he] using h
          · simp [hk, he]
      simp only [hliterals]
  intro array
  simp only [resolveLeaf, htype]

/-! ### Shapes -/

section Congruence

variable {known known' : KnownEnums} {references : References}

mutual

theorem buildTree_known_congr (targetNamespace : Option String) (array : Bool) (name : String) :
    ∀ {tree : FieldTree}, (∀ leaf ∈ tree.leaves targetNamespace, LeafAlike known known' leaf) →
      buildTree known references targetNamespace array name tree =
        buildTree known' references targetNamespace array name tree
  | .leaf label, h => by
    rw [buildTree_leaf, buildTree_leaf, h (targetNamespace, label) (List.mem_singleton.2 rfl) array]
  | .branch members, h => by
    have hm := buildTrees_known_congr (targetNamespace? members) h
    have hb : build known references members = build known' references members := by
      rw [build, hm, build]
    have hs : ofFields known references members = ofFields known' references members :=
      congrArg Built.result hb
    have ht : branchTexts known references members = branchTexts known' references members :=
      congrArg Built.branches hb
    rw [buildTree_branch, buildTree_branch, hs, ht]

theorem buildTrees_known_congr (targetNamespace : Option String) :
    ∀ {members : List (String × FieldTree)},
      (∀ leaf ∈ allLeaves targetNamespace members, LeafAlike known known' leaf) →
      buildTrees known references targetNamespace members =
        buildTrees known' references targetNamespace members
  | [], _ => rfl
  | (key, tree) :: members, h => by
    by_cases hk : isMetadata key = true
    · rw [allLeaves_cons_metadata hk] at h
      rw [buildTrees_cons_metadata known references targetNamespace hk,
        buildTrees_cons_metadata known' references targetNamespace hk]
      exact buildTrees_known_congr targetNamespace h
    · rw [allLeaves_cons_field (by simpa using hk)] at h
      rw [buildTrees_cons_field known references targetNamespace (by simpa using hk),
        buildTrees_cons_field known' references targetNamespace (by simpa using hk),
        buildTree_known_congr targetNamespace (isArrayKey key) (fieldName key)
          fun leaf hl => h leaf (List.mem_append_left _ hl),
        buildTrees_known_congr targetNamespace fun leaf hl => h leaf (List.mem_append_right _ hl)]

end

/-- What is built depends on how the leaves are resolved. -/
theorem build_known_congr {fields : Fields}
    (h : ∀ leaf ∈ fieldLeaves fields, LeafAlike known known' leaf) :
    build known references fields = build known' references fields := by
  unfold build
  rw [buildTrees_known_congr _ h]

end Congruence

end Shape

/-! ### Passes -/

section Passes

open Shape

variable {known known' : KnownEnums} {operations : Operations}

theorem Registry.meet_known_congr (registry : Registry) {fields : Fields}
    (h : ∀ leaf ∈ FieldTree.fieldLeaves fields, LeafAlike known known' leaf) :
    registry.meet known fields = registry.meet known' fields := by
  have ht : branchTexts known registry.references fields =
      branchTexts known' registry.references fields :=
    congrArg Built.branches (build_known_congr h)
  rw [meet, meet, ht]

/-- A pass depends on how the leaves are resolved. -/
theorem Registry.pass_known_congr (h : ∀ leaf ∈ operations.leaves, LeafAlike known known' leaf)
    (registry : Registry) : registry.pass known operations = registry.pass known' operations := by
  unfold Registry.pass
  congr 1
  have hentry : ∀ entry ∈ operations, ∀ fields ∈ [entry.2.input, entry.2.output],
      ∀ leaf ∈ FieldTree.fieldLeaves fields, LeafAlike known known' leaf := by
    intro entry he fields hf leaf hl
    exact h leaf (List.mem_flatMap.2 ⟨fields, List.mem_flatMap.2 ⟨entry, he, hf⟩, hl⟩)
  clear h
  induction operations generalizing registry with
  | nil => rfl
  | cons entry operations ih =>
    have hfirst := hentry entry List.mem_cons_self
    have hstep : registry.meetOperation known entry.2 = registry.meetOperation known' entry.2 := by
      rw [meetOperation, meetOperation, registry.meet_known_congr (hfirst _ List.mem_cons_self),
        Registry.meet_known_congr _ (hfirst _ (List.mem_cons_of_mem _ List.mem_cons_self))]
    have hrest := ih (registry.meetOperation known' entry.2)
      fun entry he => hentry entry (List.mem_cons_of_mem _ he)
    rw [meetAll, List.foldl_cons, hstep]
    exact hrest

/-- All passes depend on how the leaves are resolved. -/
theorem settle_known_congr (h : ∀ leaf ∈ operations.leaves, LeafAlike known known' leaf)
    (limit : Int) (endpoint : String) (registry : Registry) :
    settle known limit endpoint operations registry =
      settle known' limit endpoint operations registry := by
  have hpass : Registry.pass known operations = Registry.pass known' operations :=
    funext (Registry.pass_known_congr h)
  rw [settle, settle, hpass]

/-- The types of the operations depend on how the leaves are resolved. -/
theorem Catalog.flatMap_operationTypes_known_congr {options options' : Options}
    (hq : options.quoting = options'.quoting)
    (h : ∀ leaf ∈ operations.leaves, LeafAlike options.known options'.known leaf)
    (registry : Registry) :
    operations.flatMap (operationTypes options registry) =
      operations.flatMap (operationTypes options' registry) := by
  refine List.flatMap_congr fun entry he => ?_
  have hfields : ∀ fields ∈ [entry.2.input, entry.2.output],
      registry.render options fields = registry.render options' fields := by
    intro fields hf
    have hs : Shape.ofFields options.known registry.references fields =
        Shape.ofFields options'.known registry.references fields :=
      congrArg Built.result (build_known_congr fun leaf hl => h leaf
        (List.mem_flatMap.2 ⟨fields, List.mem_flatMap.2 ⟨entry, he, hf⟩, hl⟩))
    rw [Registry.render, Registry.render, Registry.shape, Registry.shape, hs, hq]
  rw [operationTypes, operationTypes, hfields _ List.mem_cons_self,
    hfields _ (List.mem_cons_of_mem _ List.mem_cons_self)]

end Passes

end SoapTypes
