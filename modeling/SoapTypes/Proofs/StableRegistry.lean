import SoapTypes.Proofs.Passes

/-!
# Registries that rest

What is shared once a pass has changed nothing, for operations of any form.

* `Registry.Stable`: each name is shared exactly if all its branches have one text, references are
  placed by name alone, and another pass leaves the registry as it is.
* `settle_stable`: a registry is stable whenever its passes end without a warning.
-/

namespace SoapTypes

namespace FieldTree

mutual

/-- The names of the references that are placed where a member is built, those of fields that are
overwritten among them. -/
def placed (known : KnownEnums) (references : References) (key : String) : FieldTree → List String
  | .leaf _ => []
  | .branch members =>
    match references (fieldName key)
        (Shape.render .asNeeded (Shape.ofFields known references members)) with
    | some _ => [fieldName key]
    | none => allPlaced known references members

/-- The names of the references that are placed where an object of fields is built. -/
def allPlaced (known : KnownEnums) (references : References) :
    List (String × FieldTree) → List String
  | [] => []
  | (key, tree) :: members =>
    if isMetadata key then allPlaced known references members
    else tree.placed known references key ++ allPlaced known references members

end

variable {known : KnownEnums} {references : References}

mutual

theorem exists_reference_of_mem_placed {key : String} {name : String} :
    ∀ {tree : FieldTree}, name ∈ tree.placed known references key →
      ∃ text reference, references name text = some reference
  | .leaf _, h => by simp [placed] at h
  | .branch members, h => by
    rw [placed] at h
    split at h
    · rename_i reference hr
      obtain rfl := List.mem_singleton.1 h
      exact ⟨_, reference, hr⟩
    · exact exists_reference_of_mem_allPlaced h

/-- A name that is placed has a reference for some text. -/
theorem exists_reference_of_mem_allPlaced {name : String} :
    ∀ {members : List (String × FieldTree)}, name ∈ allPlaced known references members →
      ∃ text reference, references name text = some reference
  | [], h => by simp [allPlaced] at h
  | (key, tree) :: members, h => by
    rw [allPlaced] at h
    split at h
    · exact exists_reference_of_mem_allPlaced h
    · rcases List.mem_append.1 h with h | h
      · exact exists_reference_of_mem_placed h
      · exact exists_reference_of_mem_allPlaced h

end

end FieldTree

namespace Registry

/-- References that ask for nothing but the name. -/
def byName (registry : Registry) : References :=
  fun name _ => if registry.registered.has name then some (registry.reference name) else none

/-- A registry that gives the operations what they need and changes no more. -/
structure Stable (known : KnownEnums) (operations : Operations) (registry : Registry) : Prop where
  /-- A name is shared exactly if its branches have one text, and then with this text. -/
  shared_iff (name text : String) : registry.registered.value? name = some text ↔
    ∀ other, other ∈ operations.texts known registry.references name ↔ other = text
  /-- Only names of branches are shared. -/
  exists_branch {name : String} (h : name ∈ registry.registered.keys) :
    ∃ branch ∈ operations.branches, branch.name = name
  /-- Trees are built as if references asked for nothing but the name. -/
  ofFields_eq {fields : Fields} (h : fields ∈ operations.trees) :
    Shape.ofFields known registry.references fields = Shape.ofFields known registry.byName fields
  /-- A branch whose name is shared becomes the reference, with the wrapper of an array. -/
  member_shared {branch : Branch} (h : branch ∈ operations.branches)
    (hs : branch.name ∈ registry.registered.keys) :
    branch.member known registry.references =
      .text ((if branch.array then Shape.arrayOf (Text.indent (registry.reference branch.name))
        else registry.reference branch.name) ++ ";")
  /-- Any other branch is written out. -/
  member_inline {branch : Branch} (h : branch ∈ operations.branches)
    (hs : branch.name ∉ registry.registered.keys) :
    branch.member known registry.references =
      if branch.array then
        .text (Shape.arrayOf (Text.indent (branch.text known registry.references)) ++ ";")
      else .nested (Shape.ofFields known registry.references branch.fields)
  /-- The references that are placed in a tree name what is shared. -/
  placed_tree {fields : Fields} (h : fields ∈ operations.trees) {name : String}
    (hp : name ∈ FieldTree.allPlaced known registry.references fields) :
    name ∈ registry.registered.keys
  /-- A shared text is that of a branch, and the references in it name what is shared. -/
  placed_shared {name text : String} (h : registry.registered.value? name = some text) :
    ∃ branch ∈ operations.branches, branch.name = name ∧
      text = branch.text known registry.references ∧
      ∀ other ∈ FieldTree.allPlaced known registry.references branch.fields,
        other ∈ registry.registered.keys
  /-- Another pass changes nothing at all. -/
  pass_eq : registry.pass known operations = registry

/-! ### Texts that a pass keeps -/

theorem unshared_none (texts : List String) : unshared none texts = texts := by
  simp [unshared]

theorem mem_unshared {shared : Option String} {texts : List String} {text : String} :
    text ∈ unshared shared texts ↔ text ∈ texts ∧ shared ≠ some text := by
  simp [unshared]

/-- With texts that are not shared yet, a pass ends as if nothing had been shared before. -/
theorem settledText_of_unshared {shared : Option String} {texts : List String}
    (h : unshared shared texts ≠ []) :
    settledText shared texts = settledText none (unshared shared texts) := by
  obtain ⟨first, others, he⟩ := List.exists_cons_of_ne_nil h
  rw [settledText, settledText, unshared_none, he]

/-- A name that was not shared is shared after a pass if its texts are all the same. -/
theorem settledText_none_eq_some {texts : List String} {text : String} :
    settledText none texts = some text ↔ ∀ other, other ∈ texts ↔ other = text := by
  rw [settledText, unshared_none]
  cases texts with
  | nil => exact iff_of_false (by simp) fun h => by simpa using h text
  | cons first texts =>
    constructor
    · intro h other
      -- the first text is held, and the others are compared with it
      dsimp only at h
      split at h
      · rename_i ha
        obtain rfl := Option.some.inj h
        constructor
        · intro hm
          rcases List.mem_cons.1 hm with hm | hm
          · exact hm
          · exact ha other hm
        · rintro rfl
          exact List.mem_cons_self
      · cases h
    · intro h
      obtain rfl := (h first).1 List.mem_cons_self
      dsimp only
      rw [if_pos fun other hm => (h other).1 (List.mem_cons_of_mem _ hm)]

/-- A name whose texts are all the same is shared after a pass, whatever it was before. -/
theorem settledText_eq_some {shared : Option String} {texts : List String} {text : String}
    (h : ∀ other, other ∈ texts ↔ other = text) : settledText shared texts = some text := by
  by_cases hs : shared = some text
  · have hu : unshared shared texts = [] := by
      refine List.filter_eq_nil_iff.2 fun other hm => ?_
      simp [hs, (h other).1 hm]
    rw [settledText, hu, hs]
  · have hu : unshared shared texts = texts := by
      refine List.filter_eq_self.2 fun other hm => ?_
      simp [(h other).1 hm, hs]
    rw [← settledText_none_eq_some.2 h, settledText, settledText, hu, unshared_none]
    cases texts with
    | nil => exact absurd ((h text).2 rfl) (by simp)
    | cons first texts => rfl

/-- A text that a pass keeps has met no other one. -/
theorem unshared_eq_nil {held : String} {texts : List String}
    (h : settledText (some held) texts = some held) : unshared (some held) texts = [] := by
  rw [settledText] at h
  split at h
  · assumption
  · rename_i first others hu
    have hf : some held ≠ some first := (mem_unshared.1 (hu ▸ List.mem_cons_self)).2
    split at h
    · exact absurd h.symm hf
    · cases h

/-- A text that a pass keeps is the only one of its name, unless the name has no texts. -/
theorem settledText_eq_self {shared : Option String} {texts : List String}
    (h : settledText shared texts = shared) (hn : texts = [] → shared = none) (text : String) :
    shared = some text ↔ ∀ other, other ∈ texts ↔ other = text := by
  cases shared with
  | none => rw [← settledText_none_eq_some, h]
  | some held =>
    have ha : ∀ other ∈ texts, other = held := by
      intro other hm
      by_contra hne
      have hu := mem_unshared.2 ⟨hm, fun e => hne (Option.some.inj e).symm⟩
      rw [unshared_eq_nil h] at hu
      cases hu
    obtain ⟨first, others, rfl⟩ := List.exists_cons_of_ne_nil fun e => by simpa using hn e
    obtain rfl := ha first List.mem_cons_self
    constructor
    · intro he other
      obtain rfl := Option.some.inj he
      exact ⟨ha other, fun e => e ▸ List.mem_cons_self⟩
    · intro he
      rw [(he first).1 List.mem_cons_self]

/-! ### A pass that changes nothing -/

section Pass

variable {known : KnownEnums} {operations : Operations}

/-- A candidate is a conflict or not what is shared already. -/
theorem candidate_ne_shared {registry : Registry} (h : registry.candidates = [])
    (branches : List (String × String)) {name : String} {held : Option String}
    (hv : (registry.recordAll branches).candidates.value? name = some held) :
    held = none ∨ held ≠ registry.registered.value? name := by
  rw [value?_candidates_recordAll, h, Entries.value?_nil] at hv
  cases hu : unshared (registry.registered.value? name) (textsOf name branches) with
  | nil => simp [hu] at hv
  | cons text texts =>
    have ht := (mem_unshared.1 (hu ▸ List.mem_cons_self :
      text ∈ unshared (registry.registered.value? name) (textsOf name branches))).2
    rw [hu, List.foldl_cons, noteText, foldl_noteText_candidate, Option.some.injEq] at hv
    split at hv
    · exact .inr (hv ▸ ht.symm)
    · exact .inl hv.symm

theorem foldl_promote_eq_self {registered : Entries String}
    {candidates : Entries (Option String)}
    (h : ∀ candidate ∈ candidates, candidate.2 = none ∧ registered.value? candidate.1 = none) :
    candidates.foldl promote registered = registered := by
  induction candidates with
  | nil => rfl
  | cons candidate candidates ih =>
    obtain ⟨hc, hv⟩ := h candidate List.mem_cons_self
    rw [List.foldl_cons, promote, hc, Entries.remove_eq_self hv]
    exact ih fun other hm => h other (List.mem_cons_of_mem _ hm)

/-- A pass that changes no text changes nothing. -/
theorem pass_eq_self {registry : Registry} (h : registry.Idle)
    (hs : ∀ name, (registry.pass known operations).registered.value? name =
      registry.registered.value? name) :
    registry.pass known operations = registry := by
  have hd : (registry.meetAll known operations).candidates.Distinct := by
    rw [meetAll_eq known operations h.active]
    exact distinct_candidates_recordAll (by simp [h.candidates, Entries.Distinct]) _
  have hr : (registry.meetAll known operations).registered = registry.registered := by
    rw [meetAll_eq known operations h.active, registered_recordAll]
  have hp : (registry.pass known operations).registered = registry.registered := by
    rw [pass, commit, hr]
    -- a candidate would be the new text of its name; nothing is new, so it is a conflict
    refine foldl_promote_eq_self fun candidate hm => ?_
    have hv := Entries.value?_of_mem hd hm
    have he := hs candidate.1
    rw [pass, commit, value?_foldl_promote hd, hv, Option.getD_some] at he
    rw [meetAll_eq known operations h.active] at hv
    have hn : candidate.2 = none :=
      (candidate_ne_shared h.candidates _ hv).resolve_right fun hne => hne he
    exact ⟨hn, he ▸ hn⟩
  have hns := ns_pass known operations registry
  have hc := (h.pass known operations).candidates
  have hc' := h.candidates
  generalize registry.pass known operations = next at *
  cases next
  cases registry
  simp_all

/-- A name of no branch is never shared. -/
theorem value?_iterate_pass_eq_none {registry : Registry} (h : registry.Idle) {name : String}
    (hn : registry.registered.value? name = none)
    (hb : ∀ branch ∈ operations.branches, branch.name ≠ name) (k : Nat) :
    ((Registry.pass known operations)^[k] registry).registered.value? name = none := by
  induction k with
  | zero => exact hn
  | succ k ih =>
    have ht : operations.texts known
        ((Registry.pass known operations)^[k] registry).references name = [] := by
      rw [Operations.texts, List.map_eq_nil_iff, List.filter_eq_nil_iff]
      simpa using hb
    rw [Function.iterate_succ_apply', value?_pass known operations (h.iterate_pass known operations k),
      ht, ih]
    rfl

end Pass

/-! ### Stable registries -/

section Stable

variable {known : KnownEnums} {operations : Operations} {registry : Registry}

/-- If a pass changes no text, a name is shared exactly if its branches have one text. -/
theorem shared_iff_of_pass (h : registry.Idle)
    (hs : ∀ name, (registry.pass known operations).registered.value? name =
      registry.registered.value? name)
    (hb : ∀ name, (∀ branch ∈ operations.branches, branch.name ≠ name) →
      registry.registered.value? name = none) (name text : String) :
    registry.registered.value? name = some text ↔
      ∀ other, other ∈ operations.texts known registry.references name ↔ other = text := by
  refine settledText_eq_self ((value?_pass known operations h name).symm.trans (hs name)) ?_ text
  intro ht
  refine hb name fun branch hm hn => ?_
  rw [Operations.texts, List.map_eq_nil_iff, List.filter_eq_nil_iff] at ht
  exact absurd (decide_eq_true hn) (ht branch hm)

/-- If the shared text of a name is that of its branches, references can ask for the name alone. -/
theorem agreeOn_byName (h : registry.Idle)
    (hiff : ∀ name text, registry.registered.value? name = some text ↔
      ∀ other, other ∈ operations.texts known registry.references name ↔ other = text)
    {branch : Branch} (hm : branch ∈ operations.branches) :
    Shape.AgreeOn known registry.references registry.byName branch := by
  rw [Shape.AgreeOn, references_apply h.active, byName, Entries.has]
  cases hv : registry.registered.value? branch.name with
  | none => simp
  | some text =>
    have ht := ((hiff branch.name text).1 hv _).1 (Operations.mem_texts.2 ⟨branch, hm, rfl, rfl⟩)
    simp [ht]

/-- Only names that are shared are placed. -/
theorem mem_keys_of_mem_allPlaced (h : registry.Idle) {fields : Fields} {name : String}
    (hp : name ∈ FieldTree.allPlaced known registry.references fields) :
    name ∈ registry.registered.keys := by
  obtain ⟨text, reference, hr⟩ := FieldTree.exists_reference_of_mem_allPlaced hp
  rw [references_apply h.active] at hr
  split at hr
  · rename_i hv
    exact Entries.mem_keys_of_mem (Entries.mem_of_value? hv)
  · cases hr

/-- A registry that a pass leaves as it is, and that shares no names but those of branches, is
stable. -/
theorem stable_of_pass (h : registry.Idle)
    (hs : ∀ name, (registry.pass known operations).registered.value? name =
      registry.registered.value? name)
    (hb : ∀ name, (∀ branch ∈ operations.branches, branch.name ≠ name) →
      registry.registered.value? name = none) :
    registry.Stable known operations := by
  have hiff := shared_iff_of_pass h hs hb
  exact {
    shared_iff := hiff
    exists_branch := by
      intro name hk
      by_contra hne
      refine Entries.value?_eq_none_iff.1 (hb name fun branch hm hn => hne ?_) hk
      exact ⟨branch, hm, hn⟩
    ofFields_eq := fun hf => Shape.ofFields_congr fun branch hm =>
      agreeOn_byName h hiff (Operations.allBranches_subset_of_mem_trees hf hm)
    member_shared := by
      intro branch hm hk
      have hr : registry.byName branch.name (branch.text known registry.references) =
          some (registry.reference branch.name) := if_pos (Entries.has_eq_true_iff.2 hk)
      rw [Branch.member_eq]
      unfold Shape.branchMember
      rw [(agreeOn_byName h hiff hm).trans hr]
      cases branch.array <;> simp
    member_inline := by
      intro branch hm hk
      have hr : registry.byName branch.name (branch.text known registry.references) = none :=
        if_neg fun he => hk (Entries.has_eq_true_iff.1 he)
      rw [Branch.member_eq]
      unfold Shape.branchMember
      rw [(agreeOn_byName h hiff hm).trans hr]
      cases branch.array <;> simp
    placed_tree := fun _ _ hp => mem_keys_of_mem_allPlaced h hp
    placed_shared := by
      intro name text hv
      obtain ⟨branch, hm, hn, ht⟩ := Operations.mem_texts.1 ((hiff name text).1 hv text |>.2 rfl)
      exact ⟨branch, hm, hn, ht.symm, fun _ hp => mem_keys_of_mem_allPlaced h hp⟩
    pass_eq := pass_eq_self h hs }

/-- The registry that a pass leaves as it was is stable. -/
theorem stable_of_sameShared {ns : String} (hns : ns ≠ "") (k : Nat)
    (hs : sameShared ((Registry.pass known operations)^[k] { ns := ns })
      ((Registry.pass known operations)^[k + 1] { ns := ns }) = true) :
    ((Registry.pass known operations)^[k + 1] { ns := ns }).Stable known operations := by
  have hi := fun j => (idle_fresh hns).iterate_pass known operations j
  have he := (sameShared_iff (hi k) (hi (k + 1))).1 hs
  refine stable_of_pass (hi (k + 1)) (fun name => ?_) fun name hb => ?_
  · -- a pass depends on the shared texts only
    have hr := references_congr (by rw [ns_iterate_pass, ns_iterate_pass]) he
    rw [value?_pass known operations (hi (k + 1)), ← he name, ← hr,
      ← value?_pass known operations (hi k), he name, Function.iterate_succ_apply']
  · exact value?_iterate_pass_eq_none (idle_fresh hns) rfl hb (k + 1)

end Stable

end Registry

/-- **A registry is stable if its passes end without a warning.** -/
theorem settle_stable (known : KnownEnums) (limit : Int) (endpoint : String)
    (operations : Operations) {ns : String} (hns : ns ≠ "")
    (hw : (settle known limit endpoint operations { ns := ns }).notice.warning? = none) :
    (settle known limit endpoint operations { ns := ns }).registry.Stable known operations := by
  rcases settle_cases known limit endpoint operations { ns := ns } with
    ⟨k, -, he, hs, -⟩ | ⟨he, -⟩
  · rw [he]
    exact Registry.stable_of_sameShared hns k hs
  · rw [he] at hw
    cases hw

/-- The registry of the address book is stable after three passes. -/
theorem settle_addressBook_stable :
    (settle [] 3 "Book" .addressBook { ns := "BookTypes" }).registry.Stable [] .addressBook :=
  settle_stable [] 3 "Book" .addressBook (by decide) (by decide +kernel)

end SoapTypes
