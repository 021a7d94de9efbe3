import Mathlib.Data.List.Basic
import SoapTypes.Description
import SoapTypes.Hoist.Registry

/-!
# Branches of trees

A branch is an object below an input or output, and what may be shared. `FieldTree.allBranches`
lists the branches of an object of fields, inner ones first, without those below its metadata.

* `Shape.branchTexts_eq`: these are the branches that are met when the fields are built, each with
  its text.
* `Shape.build_congr`: what is built depends on the references of its branches, with their texts,
  only.
* `FieldTree.heightAll_fields_lt`: the fields of a branch nest less deep than what holds it.
-/

namespace SoapTypes

/-- A branch: the name of its field, whether the field is an array, and its own fields. -/
structure Branch where
  name : String
  array : Bool
  fields : Fields

namespace Branch

variable (known : KnownEnums) (references : References) (branch : Branch)

/-- The text under which a branch could be shared. -/
def text : String := Shape.render .asNeeded (Shape.ofFields known references branch.fields)

/-- The text of a branch in which all branches are written out. -/
def inlineText : String := Shape.render .asNeeded (Shape.inline known branch.fields)

/-- The member that is built for a branch. -/
def member : Member :=
  (Shape.buildTree known references none branch.array branch.name (.branch branch.fields)).result

theorem member_eq :
    branch.member known references = Shape.branchMember references branch.array branch.name
      (Shape.ofFields known references branch.fields) (branch.text known references) := rfl

end Branch

namespace FieldTree

mutual

/-- The branches of a member, inner ones first and its own one last. -/
def branches (key : String) : FieldTree → List Branch
  | .leaf _ => []
  | .branch members => allBranches members ++ [⟨fieldName key, isArrayKey key, members⟩]

/-- The branches of an object of fields. -/
def allBranches : List (String × FieldTree) → List Branch
  | [] => []
  | (key, tree) :: members =>
    if isMetadata key then allBranches members else tree.branches key ++ allBranches members

end

mutual

/-- The greatest number of branches inside each other in a member. -/
def height : FieldTree → Nat
  | .leaf _ => 0
  | .branch members => heightAll members + 1

/-- The greatest number of branches inside each other below an object of fields. -/
def heightAll : List (String × FieldTree) → Nat
  | [] => 0
  | (key, tree) :: members =>
    if isMetadata key then heightAll members else max tree.height (heightAll members)

end

theorem allBranches_cons_metadata {key : String} (h : isMetadata key = true) (tree : FieldTree)
    (members : List (String × FieldTree)) :
    allBranches ((key, tree) :: members) = allBranches members := by
  simp [allBranches, h]

theorem allBranches_cons_field {key : String} (h : isMetadata key = false) (tree : FieldTree)
    (members : List (String × FieldTree)) :
    allBranches ((key, tree) :: members) = tree.branches key ++ allBranches members := by
  simp [allBranches, h]

/-- A member that is a branch is one of the branches below its object. -/
theorem mem_allBranches_of_mem {fields : Fields} {key : String} {members : Fields}
    (hm : (key, .branch members) ∈ fields) (hk : isMetadata key = false) :
    ⟨fieldName key, isArrayKey key, members⟩ ∈ allBranches fields := by
  induction fields with
  | nil => cases hm
  | cons entry fields ih =>
    obtain ⟨first, tree⟩ := entry
    rcases List.mem_cons.1 hm with he | hm
    · obtain ⟨rfl, rfl⟩ := Prod.mk.inj he
      rw [allBranches_cons_field hk, branches]
      exact List.mem_append_left _ (List.mem_append_right _ (List.mem_singleton.2 rfl))
    · by_cases hf : isMetadata first = true
      · rw [allBranches_cons_metadata hf]
        exact ih hm
      · rw [allBranches_cons_field (by simpa using hf)]
        exact List.mem_append_right _ (ih hm)

mutual

/-- The branches below a branch are among those of what holds it. -/
theorem allBranches_subset_branches (key : String) :
    ∀ {tree : FieldTree} {branch : Branch}, branch ∈ tree.branches key →
      allBranches branch.fields ⊆ tree.branches key
  | .leaf _, _, h => by simp [branches] at h
  | .branch members, inner, h => by
    rw [branches, List.mem_append] at h
    rcases h with h | h
    · exact List.Subset.trans (allBranches_subset h) (List.subset_append_left _ _)
    · rw [List.mem_singleton.1 h]
      exact List.subset_append_left _ _

theorem allBranches_subset :
    ∀ {members : List (String × FieldTree)} {branch : Branch}, branch ∈ allBranches members →
      allBranches branch.fields ⊆ allBranches members
  | [], _, h => by simp [allBranches] at h
  | (key, tree) :: members, inner, h => by
    by_cases hk : isMetadata key = true
    · rw [allBranches_cons_metadata hk] at h ⊢
      exact allBranches_subset h
    · rw [allBranches_cons_field (by simpa using hk), List.mem_append] at h
      rw [allBranches_cons_field (by simpa using hk)]
      rcases h with h | h
      · exact List.Subset.trans (allBranches_subset_branches key h) (List.subset_append_left _ _)
      · exact List.Subset.trans (allBranches_subset h) (List.subset_append_right _ _)

end

mutual

/-- The fields of a branch nest less deep than the member that holds it. -/
theorem heightAll_fields_lt_height (key : String) :
    ∀ {tree : FieldTree} {branch : Branch}, branch ∈ tree.branches key →
      heightAll branch.fields < tree.height
  | .leaf _, _, h => by simp [branches] at h
  | .branch members, inner, h => by
    rw [branches, List.mem_append] at h
    rw [height]
    rcases h with h | h
    · exact Nat.lt_succ_of_lt (heightAll_fields_lt h)
    · rw [List.mem_singleton.1 h]
      exact Nat.lt_succ_self _

/-- The fields of a branch nest less deep than the object that holds it. -/
theorem heightAll_fields_lt :
    ∀ {members : List (String × FieldTree)} {branch : Branch}, branch ∈ allBranches members →
      heightAll branch.fields < heightAll members
  | [], _, h => by simp [allBranches] at h
  | (key, tree) :: members, inner, h => by
    rw [heightAll]
    by_cases hk : isMetadata key = true
    · rw [allBranches_cons_metadata hk] at h
      rw [if_pos hk]
      exact heightAll_fields_lt h
    · rw [allBranches_cons_field (by simpa using hk), List.mem_append] at h
      rw [if_neg hk]
      rcases h with h | h
      · exact Nat.lt_of_lt_of_le (heightAll_fields_lt_height key h) (Nat.le_max_left _ _)
      · exact Nat.lt_of_lt_of_le (heightAll_fields_lt h) (Nat.le_max_right _ _)

end

end FieldTree

namespace Shape

open FieldTree

mutual

/-- The branches that are met when a member is built. -/
theorem branches_buildTree (known : KnownEnums) (references : References)
    (targetNamespace : Option String) (key : String) :
    ∀ tree : FieldTree,
      (buildTree known references targetNamespace (isArrayKey key) (fieldName key) tree).branches =
        (tree.branches key).map fun branch => (branch.name, branch.text known references)
  | .leaf _ => rfl
  | .branch members => by
    rw [buildTree_branch, branches, List.map_append]
    exact congrArg (· ++ _) (branches_buildTrees known references _ members)

theorem branches_buildTrees (known : KnownEnums) (references : References)
    (targetNamespace : Option String) :
    ∀ members : List (String × FieldTree),
      (buildTrees known references targetNamespace members).branches =
        (allBranches members).map fun branch => (branch.name, branch.text known references)
  | [] => rfl
  | (key, tree) :: members => by
    by_cases hk : isMetadata key = true
    · rw [buildTrees_cons_metadata known references targetNamespace hk,
        allBranches_cons_metadata hk]
      exact branches_buildTrees known references targetNamespace members
    · rw [buildTrees_cons_field known references targetNamespace (by simpa using hk),
        allBranches_cons_field (by simpa using hk), List.map_append,
        ← branches_buildTree known references targetNamespace key tree,
        ← branches_buildTrees known references targetNamespace members]

end

/-- The branches that are met when an object of fields is built, each with its text. -/
theorem branchTexts_eq (known : KnownEnums) (references : References) (fields : Fields) :
    branchTexts known references fields =
      (allBranches fields).map fun branch => (branch.name, branch.text known references) :=
  branches_buildTrees known references _ fields

/-- Two ways to refer agree on a branch, with the text that it has in the first one. -/
def AgreeOn (known : KnownEnums) (references references' : References) (branch : Branch) : Prop :=
  references branch.name (branch.text known references) =
    references' branch.name (branch.text known references)

section Congruence

variable {known : KnownEnums} {references references' : References}

mutual

theorem buildTree_congr (targetNamespace : Option String) (key : String) :
    ∀ {tree : FieldTree},
      (∀ branch ∈ tree.branches key, AgreeOn known references references' branch) →
      buildTree known references targetNamespace (isArrayKey key) (fieldName key) tree =
        buildTree known references' targetNamespace (isArrayKey key) (fieldName key) tree
  | .leaf _, _ => rfl
  | .branch members, h => by
    rw [branches] at h
    have hm := buildTrees_congr (targetNamespace? members)
      fun branch hb => h branch (List.mem_append_left _ hb)
    have hb : build known references members = build known references' members := by
      rw [build, hm, build]
    have hs : ofFields known references members = ofFields known references' members :=
      congrArg Built.result hb
    have ht : branchTexts known references members = branchTexts known references' members :=
      congrArg Built.branches hb
    have hr : references (fieldName key) (render .asNeeded (ofFields known references members)) =
        references' (fieldName key) (render .asNeeded (ofFields known references members)) :=
      h _ (List.mem_append_right _ (List.mem_singleton.2 rfl))
    rw [buildTree_branch, buildTree_branch, ← hs, ← ht]
    -- shape and text are the same now, and what is left is the reference of the branch itself
    unfold branchMember
    rw [hr]

theorem buildTrees_congr (targetNamespace : Option String) :
    ∀ {members : List (String × FieldTree)},
      (∀ branch ∈ allBranches members, AgreeOn known references references' branch) →
      buildTrees known references targetNamespace members =
        buildTrees known references' targetNamespace members
  | [], _ => rfl
  | (key, tree) :: members, h => by
    by_cases hk : isMetadata key = true
    · rw [allBranches_cons_metadata hk] at h
      rw [buildTrees_cons_metadata known references targetNamespace hk,
        buildTrees_cons_metadata known references' targetNamespace hk]
      exact buildTrees_congr targetNamespace h
    · rw [allBranches_cons_field (by simpa using hk)] at h
      rw [buildTrees_cons_field known references targetNamespace (by simpa using hk),
        buildTrees_cons_field known references' targetNamespace (by simpa using hk),
        buildTree_congr targetNamespace key fun branch hb => h branch (List.mem_append_left _ hb),
        buildTrees_congr targetNamespace fun branch hb => h branch (List.mem_append_right _ hb)]

end

/-- What is built depends on the references of its branches, with their texts, only. -/
theorem build_congr {fields : Fields}
    (h : ∀ branch ∈ allBranches fields, AgreeOn known references references' branch) :
    build known references fields = build known references' fields := by
  unfold build
  rw [buildTrees_congr _ h]

theorem ofFields_congr {fields : Fields}
    (h : ∀ branch ∈ allBranches fields, AgreeOn known references references' branch) :
    ofFields known references fields = ofFields known references' fields :=
  congrArg Built.result (build_congr h)

end Congruence

end Shape

namespace Operations

/-- The branches of all operations, inputs before outputs. -/
def branches (operations : Operations) : List Branch :=
  operations.flatMap fun entry =>
    FieldTree.allBranches entry.2.input ++ FieldTree.allBranches entry.2.output

/-- The greatest number of branches inside each other in any input or output. -/
def height (operations : Operations) : Nat :=
  (operations.map fun entry =>
    max (FieldTree.heightAll entry.2.input) (FieldTree.heightAll entry.2.output)).foldr max 0

/-- The objects of fields of all operations. -/
def trees (operations : Operations) : List Fields :=
  operations.flatMap fun entry => [entry.2.input, entry.2.output]

theorem mem_branches {operations : Operations} {branch : Branch} :
    branch ∈ operations.branches ↔
      ∃ fields ∈ operations.trees, branch ∈ FieldTree.allBranches fields := by
  simp only [branches, trees, List.mem_flatMap, List.mem_append, List.mem_cons, List.not_mem_nil,
    or_false]
  constructor
  · rintro ⟨entry, he, hb | hb⟩
    · exact ⟨_, ⟨entry, he, .inl rfl⟩, hb⟩
    · exact ⟨_, ⟨entry, he, .inr rfl⟩, hb⟩
  · rintro ⟨fields, ⟨entry, he, rfl | rfl⟩, hb⟩
    · exact ⟨entry, he, .inl hb⟩
    · exact ⟨entry, he, .inr hb⟩

theorem heightAll_le_height {operations : Operations} {fields : Fields}
    (h : fields ∈ operations.trees) : FieldTree.heightAll fields ≤ operations.height := by
  unfold trees at h
  unfold height
  induction operations with
  | nil => simp at h
  | cons entry operations ih =>
    rw [List.flatMap_cons, List.mem_append] at h
    rw [List.map_cons, List.foldr_cons]
    rcases h with h | h
    · simp only [List.mem_cons, List.not_mem_nil, or_false] at h
      rcases h with rfl | rfl <;> omega
    · exact Nat.le_trans (ih h) (Nat.le_max_right _ _)

/-- The branches below a branch of the operations are branches of the operations. -/
theorem allBranches_subset_branches {operations : Operations} {branch : Branch}
    (h : branch ∈ operations.branches) :
    FieldTree.allBranches branch.fields ⊆ operations.branches := by
  obtain ⟨fields, hf, hb⟩ := mem_branches.1 h
  intro inner hi
  exact mem_branches.2 ⟨fields, hf, FieldTree.allBranches_subset hb hi⟩

theorem allBranches_subset_of_mem_trees {operations : Operations} {fields : Fields}
    (h : fields ∈ operations.trees) : FieldTree.allBranches fields ⊆ operations.branches :=
  fun _ hb => mem_branches.2 ⟨fields, h, hb⟩

/-- The fields of a branch of the operations nest less deep than the operations. -/
theorem heightAll_fields_lt_height {operations : Operations} {branch : Branch}
    (h : branch ∈ operations.branches) :
    FieldTree.heightAll branch.fields < operations.height := by
  obtain ⟨fields, hf, hb⟩ := mem_branches.1 h
  exact Nat.lt_of_lt_of_le (FieldTree.heightAll_fields_lt hb) (heightAll_le_height hf)

/-- An endpoint with one shape in two places, one of them inside another branch. -/
def addressBook : Operations :=
  [("Find", {
    input := [("name", .leaf "name|xs:string")]
    output := [
      ("person", .branch [("address", .branch [("street", .leaf "street|xs:string")])]),
      ("address[]", .branch [("street", .leaf "street|xs:string")])] })]

end Operations

end SoapTypes
