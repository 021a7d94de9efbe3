import Mathlib.Data.Set.Subsingleton
import SoapTypes.Proofs.OperationOrder

/-!
# Offers and what a commit makes of them

A registry is offered branches one after the other, and a commit ends the pass. What an offer is
answered depends on the branch and on what is shared, and on no other offer. What becomes of a name
depends on the set of its new texts, those that were offered and are not shared already: without one
the name stays as it was, a single one is shared from now on, and with two the name is shared no
longer. So neither the order of the offers counts nor how often each was made.

* `Registry.offerAll` makes the offers, and `Registry.newTexts` is the set of new texts of a name.
* `Registry.offerAll_eq`: all answers, and the registry after the offers.
* `Registry.pass_eq_afterOffers`: a pass is such offers and a commit.
* `Registry.commit_offers`: what is shared after the commit, name by name.
-/

namespace SoapTypes.Registry

open Entries

/-- Offer branches one after the other: the answers, and the registry that has met all of them. -/
def offerAll (registry : Registry) :
    List (String × String) → List (Option String) × Registry
  | [] => ([], registry)
  | (name, body) :: offers =>
    let (answer, met) := registry.offer name body
    let (answers, last) := met.offerAll offers
    (answer :: answers, last)

/-- The registry after the offers and the commit. -/
def afterOffers (registry : Registry) (offers : List (String × String)) : Registry :=
  (registry.offerAll offers).2.commit

/-- The texts that were offered under a name and are not what is shared under it. -/
def newTexts (registry : Registry) (offers : List (String × String)) (name : String) :
    Set String :=
  {text | (name, text) ∈ offers ∧ registry.registered.value? name ≠ some text}

variable {registry : Registry} {offers : List (String × String)} {name : String}

/-! ### Answers -/

/-- An offer does not change how another one is answered. -/
theorem reference?_record (registry : Registry) (name body other text : String) :
    (registry.record name body).reference? other text = registry.reference? other text := by
  rw [reference?, reference?, registered_record, reference, reference, ns_record]

/-- **Every offer is answered as if it were the first one.** -/
theorem offerAll_eq (registry : Registry) (offers : List (String × String)) :
    registry.offerAll offers =
      (offers.map fun offer => registry.reference? offer.1 offer.2, registry.recordAll offers) := by
  induction offers generalizing registry with
  | nil => rfl
  | cons first offers ih =>
    obtain ⟨name, body⟩ := first
    simp only [offerAll, offer, ih, reference?_record, List.map_cons]
    rfl

/-- A pass offers all branches of the operations, each with its text against what was shared
before the pass. -/
theorem pass_eq_afterOffers (h : registry.isActive = true) (known : KnownEnums)
    (operations : Operations) :
    registry.pass known operations =
      registry.afterOffers (operations.branches.map fun branch =>
        (branch.name, branch.text known registry.references)) := by
  rw [pass, meetAll_eq known operations h, afterOffers, offerAll_eq]

/-! ### New texts -/

theorem mem_newTexts {text : String} :
    text ∈ registry.newTexts offers name ↔
      (name, text) ∈ offers ∧ registry.registered.value? name ≠ some text := Iff.rfl

theorem mem_unshared_textsOf {text : String} :
    text ∈ unshared (registry.registered.value? name) (textsOf name offers) ↔
      text ∈ registry.newTexts offers name := by
  rw [mem_unshared, mem_newTexts]
  simp [textsOf]

/-- The text of a name after the offers and the commit. -/
theorem value?_afterOffers (h : registry.candidates = []) (offers : List (String × String))
    (name : String) :
    (registry.afterOffers offers).registered.value? name =
      settledText (registry.registered.value? name) (textsOf name offers) := by
  rw [afterOffers, offerAll_eq, value?_commit_recordAll h]

/-- Without a new text a name stays as it was. -/
theorem value?_afterOffers_of_empty (h : registry.candidates = [])
    (hn : registry.newTexts offers name = ∅) :
    (registry.afterOffers offers).registered.value? name = registry.registered.value? name := by
  have hu : unshared (registry.registered.value? name) (textsOf name offers) = [] := by
    rw [List.eq_nil_iff_forall_not_mem]
    intro text hm
    rw [mem_unshared_textsOf, hn] at hm
    exact hm
  rw [value?_afterOffers h, settledText, hu]

/-- A name with new texts is shared after the commit if there is one of them. -/
theorem value?_afterOffers_eq_some_iff (h : registry.candidates = [])
    (hn : (registry.newTexts offers name).Nonempty) {text : String} :
    (registry.afterOffers offers).registered.value? name = some text ↔
      registry.newTexts offers name = {text} := by
  obtain ⟨first, hf⟩ := hn
  have hu := List.ne_nil_of_mem (mem_unshared_textsOf.2 hf)
  rw [value?_afterOffers h, settledText_of_unshared hu, settledText_none_eq_some, Set.ext_iff]
  simp only [mem_unshared_textsOf, Set.mem_singleton_iff]

/-- **What a commit makes of the offers.** For a registry without candidates and any offers to it:

* an offer is answered with the reference to its name if its text is what the registry shares under
  the name, and not at all otherwise, whatever was offered before;
* a name without a new text is shared as before, or not at all as before; one with a single new text
  is shared with it; and one with two new texts is not shared;
* the same offers in any other order, and made any number of times, lead to the same shared texts;
* no candidate remains. -/
theorem commit_offers (h : registry.candidates = []) (offers : List (String × String)) :
    ((registry.offerAll offers).1 = offers.map fun offer =>
        if registry.registered.value? offer.1 = some offer.2
        then some (registry.ns ++ ".I" ++ offer.1) else none) ∧
      (∀ name,
        (registry.newTexts offers name = ∅ →
          (registry.afterOffers offers).registered.value? name =
            registry.registered.value? name) ∧
        (∀ text, registry.newTexts offers name = {text} →
          (registry.afterOffers offers).registered.value? name = some text) ∧
        ((registry.newTexts offers name).Nontrivial →
          (registry.afterOffers offers).registered.value? name = none)) ∧
      (∀ others, (∀ offer, offer ∈ others ↔ offer ∈ offers) →
        SameMap (registry.afterOffers others).registered
          (registry.afterOffers offers).registered) ∧
      (registry.afterOffers offers).candidates = [] := by
  refine ⟨?_, fun name => ⟨value?_afterOffers_of_empty h, fun text ht => ?_, fun ht => ?_⟩,
    fun others ho name => ?_, rfl⟩
  · rw [offerAll_eq]
    rfl
  · exact (value?_afterOffers_eq_some_iff h (ht ▸ Set.singleton_nonempty text)).2 ht
  · rw [Option.eq_none_iff_forall_ne_some]
    intro text hv
    rw [value?_afterOffers_eq_some_iff h ht.nonempty] at hv
    exact Set.not_nontrivial_singleton (hv ▸ ht)
  · rw [value?_afterOffers h, value?_afterOffers h]
    refine settledText_congr (fun text => ?_) _
    simp [textsOf, ho]

/-- A name that stays, one that is new, one that changes its text and one with two texts, of which
the first is offered again. -/
theorem commit_offers_street :
    let registry : Registry :=
      { ns := "BookTypes", registered := [("home", "A"), ("street", "B"), ("city", "C")] }
    let offers := [("street", "D"), ("home", "A"), ("person", "E"), ("street", "F"), ("city", "G"),
      ("street", "D")]
    let shared := (registry.afterOffers offers).registered
    (registry.offerAll offers).1 = [none, some "BookTypes.Ihome", none, none, none, none] ∧
      shared.value? "home" = some "A" ∧ shared.value? "person" = some "E" ∧
      shared.value? "city" = some "G" ∧ shared.value? "street" = none ∧
      SameMap (registry.afterOffers offers.reverse).registered shared := by
  intro registry offers shared
  have hfresh : registry.candidates = [] := rfl
  obtain ⟨hanswers, hnames, horder, -⟩ := commit_offers hfresh offers
  refine ⟨hanswers, (hnames "home").1 ?_, (hnames "person").2.1 "E" ?_,
    (hnames "city").2.1 "G" ?_, (hnames "street").2.2 ⟨"D", mem_newTexts.2 (by decide), "F",
      mem_newTexts.2 (by decide), by decide⟩, horder _ fun offer => List.mem_reverse⟩
  · ext text
    simp [mem_newTexts, registry, offers, value?, eq_comm]
  · ext text
    simp [mem_newTexts, registry, offers, value?]
  · ext text
    simp +contextual [mem_newTexts, registry, offers, value?]

end SoapTypes.Registry
