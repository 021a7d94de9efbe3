import Mathlib.Logic.Function.Iterate
import SoapTypes.Hoist.Settle
import SoapTypes.Proofs.Branches
import SoapTypes.Proofs.Tables

/-!
# Passes over the operations

What a pass makes of the shared texts, name by name, and what is known when the passes end.

* `Registry.value?_pass`: the text of a name after a pass is a function of the text before it and
  the texts that the branches of this name have, `Registry.settledText`.
* `Registry.Idle` is what holds of a registry between two passes.
* `settle_cases`: either a pass changed nothing and was the last one, or all passes up to the limit
  changed something.
-/

namespace SoapTypes

/-- The texts of all branches of a name. -/
def Operations.texts (known : KnownEnums) (references : References) (operations : Operations)
    (name : String) : List String :=
  (operations.branches.filter fun branch => branch.name = name).map (Branch.text known references)

theorem Operations.mem_texts {known : KnownEnums} {references : References}
    {operations : Operations} {name text : String} :
    text ∈ operations.texts known references name ↔
      ∃ branch ∈ operations.branches, branch.name = name ∧ branch.text known references = text := by
  simp only [texts, List.mem_map, List.mem_filter, decide_eq_true_eq, and_assoc]

namespace Registry

/-! ### Candidates -/

/-- What is held for a name after one more text that is not shared yet. -/
def noteText (held : Option (Option String)) (text : String) : Option (Option String) :=
  match held with
  | none => some (some text)
  | some held => if held = some text then some held else some none

/-- The texts of a name among some branches. -/
def textsOf (name : String) (branches : List (String × String)) : List String :=
  (branches.filter fun branch => branch.1 = name).map Prod.snd

/-- The texts among some that differ from the one that is shared. -/
def unshared (shared : Option String) (texts : List String) : List String :=
  texts.filter fun text => shared ≠ some text

theorem value?_candidates_record (registry : Registry) (name body other : String) :
    (registry.record name body).candidates.value? other =
      if name = other ∧ registry.registered.value? name ≠ some body then
        noteText (registry.candidates.value? other) body
      else registry.candidates.value? other := by
  unfold record
  by_cases hr : registry.registered.value? name = some body
  · simp [hr]
  · by_cases hn : name = other
    · subst hn
      cases hc : registry.candidates.value? name with
      | none => simp [hr, noteText]
      | some held =>
        by_cases hh : held = some body
        · simp [hr, hh, hc, noteText]
        · simp [hr, hh, noteText]
    · cases hc : registry.candidates.value? name with
      | none => simp [hr, hn]
      | some held =>
        by_cases hh : held = some body
        · simp [hr, hh, hn]
        · simp [hr, hh, hn]

/-- What is held for a name after some branches. -/
theorem value?_candidates_recordAll (registry : Registry) (branches : List (String × String))
    (name : String) :
    (registry.recordAll branches).candidates.value? name =
      (unshared (registry.registered.value? name) (textsOf name branches)).foldl noteText
        (registry.candidates.value? name) := by
  induction branches generalizing registry with
  | nil => rfl
  | cons branch branches ih =>
    have h := ih (registry.record branch.1 branch.2)
    rw [registered_record, value?_candidates_record] at h
    rw [show registry.recordAll (branch :: branches) =
      (registry.record branch.1 branch.2).recordAll branches from rfl, h]
    by_cases hn : branch.1 = name
    · by_cases hr : registry.registered.value? name = some branch.2
      · simp [textsOf, unshared, hn, hr]
      · simp [textsOf, unshared, hn, hr]
    · simp [textsOf, unshared, hn]

/-- A conflict stays a conflict. -/
theorem foldl_noteText_conflict (texts : List String) :
    texts.foldl noteText (some none) = some none := by
  induction texts with
  | nil => rfl
  | cons text texts ih => simpa [noteText] using ih

/-- A text stays a candidate as long as all others are equal to it. -/
theorem foldl_noteText_candidate (text : String) (texts : List String) :
    texts.foldl noteText (some (some text)) =
      some (if ∀ other ∈ texts, other = text then some text else none) := by
  induction texts with
  | nil => simp
  | cons next texts ih =>
    by_cases hn : next = text
    · subst hn
      simpa [noteText] using ih
    · have hn' : ¬ text = next := fun e => hn e.symm
      simpa [noteText, hn, hn'] using foldl_noteText_conflict texts

/-! ### Ending a pass -/

/-- The text that a name has after a pass, from the text before it and those that were met. -/
def settledText (shared : Option String) (texts : List String) : Option String :=
  match unshared shared texts with
  | [] => shared
  | text :: texts => if ∀ other ∈ texts, other = text then some text else none

theorem distinct_promote {registered : Entries String} (h : registered.Distinct)
    (candidate : String × Option String) : (promote registered candidate).Distinct := by
  unfold promote
  split
  · exact Entries.distinct_put h _ _
  · exact Entries.distinct_remove h _

theorem value?_promote (registered : Entries String) (candidate : String × Option String)
    (name : String) :
    (promote registered candidate).value? name =
      if candidate.1 = name then candidate.2 else registered.value? name := by
  unfold promote
  split
  · rename_i body hb
    rw [Entries.value?_put, hb]
  · rename_i hb
    rw [Entries.value?_remove, hb]

theorem value?_foldl_promote {candidates : Entries (Option String)} (h : candidates.Distinct)
    (registered : Entries String) (name : String) :
    Entries.value? (candidates.foldl promote registered) name =
      (candidates.value? name).getD (registered.value? name) := by
  induction candidates generalizing registered with
  | nil => rfl
  | cons candidate candidates ih =>
    obtain ⟨key, held⟩ := candidate
    obtain ⟨hk, hd⟩ := List.nodup_cons.1 h
    rw [List.foldl_cons, ih hd, value?_promote]
    by_cases hn : key = name
    · subst hn
      have hv : Entries.value? candidates key = none := Entries.value?_eq_none_iff.2 hk
      simp [Entries.value?, hv]
    · simp [Entries.value?, hn]

theorem distinct_candidates_record {registry : Registry} (h : registry.candidates.Distinct)
    (name body : String) : (registry.record name body).candidates.Distinct := by
  unfold record
  split
  · exact h
  · split
    · exact Entries.distinct_put h _ _
    · split
      · exact h
      · exact Entries.distinct_put h _ _

theorem distinct_candidates_recordAll {registry : Registry} (h : registry.candidates.Distinct)
    (branches : List (String × String)) : (registry.recordAll branches).candidates.Distinct := by
  induction branches generalizing registry with
  | nil => exact h
  | cons branch branches ih => exact ih (distinct_candidates_record h branch.1 branch.2)

theorem distinct_foldl_promote {registered : Entries String} (h : registered.Distinct)
    (candidates : Entries (Option String)) :
    Entries.Distinct (candidates.foldl promote registered) := by
  induction candidates generalizing registered with
  | nil => exact h
  | cons candidate candidates ih => exact ih (distinct_promote h candidate)

/-- The text of a name after some branches were met and the pass was ended. -/
theorem value?_commit_recordAll {registry : Registry} (h : registry.candidates = [])
    (branches : List (String × String)) (name : String) :
    (registry.recordAll branches).commit.registered.value? name =
      settledText (registry.registered.value? name) (textsOf name branches) := by
  have hd : (registry.recordAll branches).candidates.Distinct :=
    distinct_candidates_recordAll (by simp [h, Entries.Distinct]) branches
  rw [commit, value?_foldl_promote hd, value?_candidates_recordAll, registered_recordAll, h,
    Entries.value?_nil, settledText]
  cases unshared (registry.registered.value? name) (textsOf name branches) with
  | nil => rfl
  | cons text texts =>
    rw [List.foldl_cons, noteText, foldl_noteText_candidate]
    rfl

/-! ### One pass -/

@[simp] theorem ns_recordAll (registry : Registry) (branches : List (String × String)) :
    (registry.recordAll branches).ns = registry.ns := by
  induction branches generalizing registry with
  | nil => rfl
  | cons branch branches ih =>
    exact (ih (registry.record branch.1 branch.2)).trans (ns_record registry _ _)

@[simp] theorem isActive_recordAll (registry : Registry) (branches : List (String × String)) :
    (registry.recordAll branches).isActive = registry.isActive := by
  rw [isActive, ns_recordAll, isActive]

theorem recordAll_append (registry : Registry) (branches others : List (String × String)) :
    registry.recordAll (branches ++ others) = (registry.recordAll branches).recordAll others :=
  List.foldl_append

theorem references_congr {a b : Registry} (hn : a.ns = b.ns)
    (h : ∀ name, a.registered.value? name = b.registered.value? name) :
    a.references = b.references := by
  unfold references isActive reference? reference
  simp only [hn, h]

@[simp] theorem references_recordAll (registry : Registry) (branches : List (String × String)) :
    (registry.recordAll branches).references = registry.references :=
  references_congr (by simp) (by simp)

/-- The reference of an active registry is the text's, if it is shared under the name. -/
theorem references_apply {registry : Registry} (h : registry.isActive = true)
    (name text : String) :
    registry.references name text =
      if registry.registered.value? name = some text then some (registry.reference name)
      else none := by
  rw [references, if_pos h, reference?]

/-- What holds of a registry between two passes: it has room for shared texts, each name has one
text, and no candidate remains. -/
structure Idle (registry : Registry) : Prop where
  active : registry.isActive = true
  distinct : registry.registered.Distinct
  candidates : registry.candidates = []

/-- A registry that shares nothing is idle. -/
theorem idle_fresh {ns : String} (h : ns ≠ "") : Idle { ns := ns } where
  active := by simp [isActive, h]
  distinct := by simp [Entries.Distinct]
  candidates := rfl

section Pass

variable (known : KnownEnums) (operations : Operations)

theorem meet_eq {registry : Registry} (h : registry.isActive = true) (fields : Fields) :
    registry.meet known fields =
      registry.recordAll ((FieldTree.allBranches fields).map fun branch =>
        (branch.name, branch.text known registry.references)) := by
  rw [meet, if_pos h, Shape.branchTexts_eq]

/-- The branches that a pass meets, each with its text. -/
theorem meetAll_eq {registry : Registry} (h : registry.isActive = true) :
    registry.meetAll known operations =
      registry.recordAll (operations.branches.map fun branch =>
        (branch.name, branch.text known registry.references)) := by
  -- the references stay those of the registry that the pass begins with
  have hg : ∀ acc : Registry, acc.isActive = true → acc.references = registry.references →
      acc.meetAll known operations = acc.recordAll (operations.branches.map fun branch =>
        (branch.name, branch.text known registry.references)) := by
    induction operations with
    | nil => exact fun acc _ _ => rfl
    | cons entry operations ih =>
      intro acc ha hr
      have hm : acc.meetOperation known entry.2 =
          acc.recordAll ((FieldTree.allBranches entry.2.input ++
            FieldTree.allBranches entry.2.output).map fun branch =>
              (branch.name, branch.text known registry.references)) := by
        rw [meetOperation, meet_eq known ha, meet_eq known (by simpa using ha),
          references_recordAll, hr, List.map_append, recordAll_append]
      have ht := ih (acc.meetOperation known entry.2) (by simpa [hm] using ha)
        (by simpa [hm] using hr)
      rw [show acc.meetAll known (entry :: operations) =
        (acc.meetOperation known entry.2).meetAll known operations from rfl, ht, hm,
        ← recordAll_append, ← List.map_append]
      rfl
  exact hg registry h rfl

/-- **The text of a name after a pass.** -/
theorem value?_pass {registry : Registry} (h : registry.Idle) (name : String) :
    (registry.pass known operations).registered.value? name =
      settledText (registry.registered.value? name)
        (operations.texts known registry.references name) := by
  rw [pass, meetAll_eq known operations h.active, value?_commit_recordAll h.candidates]
  congr 1
  simp only [textsOf, Operations.texts, List.filter_map, List.map_map]
  rfl

@[simp] theorem ns_pass (registry : Registry) :
    (registry.pass known operations).ns = registry.ns := by
  have hm : ∀ (registry : Registry) (fields : Fields),
      (registry.meet known fields).ns = registry.ns := by
    intro registry fields
    unfold meet
    split <;> simp
  unfold pass meetAll
  rw [ns_commit]
  induction operations generalizing registry with
  | nil => rfl
  | cons entry operations ih => rw [List.foldl_cons, ih, meetOperation, hm, hm]

/-- A pass leads from an idle registry to an idle registry. -/
theorem Idle.pass {registry : Registry} (h : registry.Idle) :
    (registry.pass known operations).Idle where
  active := by simpa [isActive] using h.active
  distinct := by
    rw [Registry.pass, meetAll_eq known operations h.active, commit]
    exact distinct_foldl_promote (by simpa using h.distinct) _
  candidates := rfl

theorem Idle.iterate_pass {registry : Registry} (h : registry.Idle) (k : Nat) :
    ((Registry.pass known operations)^[k] registry).Idle := by
  induction k with
  | zero => exact h
  | succ k ih =>
    rw [Function.iterate_succ_apply']
    exact ih.pass known operations

theorem ns_iterate_pass (registry : Registry) (k : Nat) :
    ((Registry.pass known operations)^[k] registry).ns = registry.ns := by
  induction k with
  | zero => rfl
  | succ k ih => rw [Function.iterate_succ_apply', ns_pass, ih]

end Pass

/-- Idle registries share the same exactly if they give every name the same text. -/
theorem sameShared_iff {a b : Registry} (ha : a.Idle) (hb : b.Idle) :
    sameShared a b = true ↔ ∀ name, a.registered.value? name = b.registered.value? name :=
  Entries.agree_iff ha.distinct hb.distinct

/-! ### All passes -/

/-- If the steps end before the limit, the last one is the first that changes nothing shared. -/
theorem iterate_eq_some {step : Registry → Registry} {fuel steps : Nat}
    {registry last : Registry} (h : iterate step fuel registry = (some steps, last)) :
    ∃ k, steps = k + 1 ∧ k < fuel ∧ last = step^[k + 1] registry ∧
      sameShared (step^[k] registry) (step^[k + 1] registry) = true ∧
      ∀ j < k, sameShared (step^[j] registry) (step^[j + 1] registry) = false := by
  induction fuel generalizing registry steps with
  | zero => simp [iterate] at h
  | succ fuel ih =>
    rw [iterate] at h
    by_cases hs : sameShared registry (step registry) = true
    · simp only [hs, if_true, Prod.mk.injEq, Option.some.injEq] at h
      exact ⟨0, h.1.symm, Nat.succ_pos _, h.2.symm, hs, by simp⟩
    · -- the first step changed something, so the count is one more than that of the others
      cases hi : iterate step fuel (step registry) with
      | mk others rest =>
        simp only [hs, hi, Bool.false_eq_true, if_false, Prod.mk.injEq, Option.map_eq_some_iff] at h
        obtain ⟨⟨others, rfl, rfl⟩, rfl⟩ := h
        obtain ⟨k, rfl, hk, hl, hsame, hbefore⟩ := ih hi
        refine ⟨k + 1, rfl, Nat.succ_lt_succ hk, hl, hsame, fun j hj => ?_⟩
        cases j with
        | zero => simpa using hs
        | succ j => exact hbefore j (Nat.lt_of_succ_lt_succ hj)

/-- If the steps reach the limit, every one of them changed something shared. -/
theorem iterate_eq_none {step : Registry → Registry} {fuel : Nat} {registry last : Registry}
    (h : iterate step fuel registry = (none, last)) :
    last = step^[fuel] registry ∧
      ∀ j < fuel, sameShared (step^[j] registry) (step^[j + 1] registry) = false := by
  induction fuel generalizing registry with
  | zero => exact ⟨(Prod.mk.inj h).2.symm, by simp⟩
  | succ fuel ih =>
    rw [iterate] at h
    by_cases hs : sameShared registry (step registry) = true
    · simp [hs] at h
    · cases hi : iterate step fuel (step registry) with
      | mk others rest =>
        simp only [hs, hi, Bool.false_eq_true, if_false, Prod.mk.injEq, Option.map_eq_none_iff] at h
        obtain ⟨rfl, rfl⟩ := h
        obtain ⟨hl, hbefore⟩ := ih hi
        refine ⟨hl, fun j hj => ?_⟩
        cases j with
        | zero => simpa using hs
        | succ j => exact hbefore j (Nat.lt_of_succ_lt_succ hj)

end Registry

/-- The passes of an endpoint end with the first that changes nothing, or all of them changed
something and a warning says so. -/
theorem settle_cases (known : KnownEnums) (limit : Int) (endpoint : String)
    (operations : Operations) (registry : Registry) :
    (∃ k : Nat, k < limit.toNat ∧
      settle known limit endpoint operations registry =
        ⟨(k + 1 : Nat), (Registry.pass known operations)^[k + 1] registry,
          .debug (endpoint ++ ": stable after " ++ toString (k + 1) ++ " pass(es)")⟩ ∧
      Registry.sameShared ((Registry.pass known operations)^[k] registry)
        ((Registry.pass known operations)^[k + 1] registry) = true ∧
      ∀ j < k, Registry.sameShared ((Registry.pass known operations)^[j] registry)
        ((Registry.pass known operations)^[j + 1] registry) = false) ∨
    (settle known limit endpoint operations registry =
        ⟨limit, (Registry.pass known operations)^[limit.toNat] registry,
          .warning ("Aborted nested interface changes for port " ++ endpoint ++ " after " ++
            toString limit ++ " passes")⟩ ∧
      ∀ j < limit.toNat, Registry.sameShared ((Registry.pass known operations)^[j] registry)
        ((Registry.pass known operations)^[j + 1] registry) = false) := by
  unfold settle
  cases hi : registry.iterate (Registry.pass known operations) limit.toNat with
  | mk steps last =>
    cases steps with
    | some steps =>
      obtain ⟨k, rfl, hk, rfl, hs, hb⟩ := Registry.iterate_eq_some hi
      exact .inl ⟨k, hk, rfl, hs, hb⟩
    | none =>
      obtain ⟨rfl, hb⟩ := Registry.iterate_eq_none hi
      exact .inr ⟨rfl, hb⟩

end SoapTypes
