import Mathlib.Data.List.Basic
import Mathlib.Data.List.Forall2
import Mathlib.Data.List.Perm.Subperm
import SoapTypes.Entries

/-!
# Tables as maps

What the operations on ordered entries do to their members, and when two tables are equal as maps.

* `Related` compares two tables entry by entry; `related_ofPairs` carries it to the tables of two
  lists of pairs.
* `agree_iff`: tables without repeated names agree exactly if they give every name the same value.
-/

namespace SoapTypes.Entries

variable {α β : Type}

instance (entries : Entries α) : Decidable entries.Distinct :=
  inferInstanceAs (Decidable (List.Nodup _))

/-! ### Members -/

theorem mem_of_value? {entries : Entries α} {key : String} {value : α}
    (h : entries.value? key = some value) : (key, value) ∈ entries := by
  induction entries with
  | nil => simp at h
  | cons entry rest ih =>
    obtain ⟨k, v⟩ := entry
    by_cases hk : k = key
    · obtain rfl : v = value := by simpa [value?, hk] using h
      simp [hk]
    · simp only [value?, hk, if_false] at h
      exact List.mem_cons_of_mem _ (ih h)

theorem mem_keys_of_mem {entries : Entries α} {entry : String × α} (h : entry ∈ entries) :
    entry.1 ∈ entries.keys := List.mem_map_of_mem h

/-- In a table without repeated names every member is the value of its name. -/
theorem value?_of_mem {entries : Entries α} (hd : entries.Distinct) {key : String} {value : α}
    (h : (key, value) ∈ entries) : entries.value? key = some value := by
  induction entries with
  | nil => simp at h
  | cons entry rest ih =>
    obtain ⟨k, v⟩ := entry
    simp only [Distinct, keys_cons, List.nodup_cons] at hd
    rcases List.mem_cons.1 h with he | hm
    · obtain ⟨rfl, rfl⟩ := Prod.mk.inj he
      simp [value?]
    · have hk : k ≠ key := fun e => hd.1 (e ▸ mem_keys_of_mem hm)
      simp only [value?, hk, if_false]
      exact ih hd.2 hm

/-- In a table without repeated names the members of one name are the same. -/
theorem eq_of_key_eq {entries : Entries α} (hd : entries.Distinct) {a b : String × α}
    (ha : a ∈ entries) (hb : b ∈ entries) (h : a.1 = b.1) : a = b := by
  have hv : entries.value? a.1 = some a.2 := value?_of_mem hd ha
  rw [h, value?_of_mem hd hb, Option.some.injEq] at hv
  exact Prod.ext h hv.symm

theorem mem_put {entries : Entries α} {key : String} {value : α} {entry : String × α}
    (h : entry ∈ entries.put key value) : entry ∈ entries ∨ entry = (key, value) := by
  induction entries with
  | nil => simpa [put] using h
  | cons first rest ih =>
    obtain ⟨k, v⟩ := first
    by_cases hk : k = key
    · simp only [put, hk, if_true, List.mem_cons] at h ⊢
      exact h.symm.imp_left Or.inr
    · simp only [put, hk, if_false, List.mem_cons] at h ⊢
      rcases h with h | h
      · exact Or.inl (Or.inl h)
      · exact (ih h).imp_left Or.inr

theorem mem_putAll {entries : Entries α} {more : List (String × α)} {entry : String × α}
    (h : entry ∈ entries.putAll more) : entry ∈ entries ∨ entry ∈ more := by
  induction more generalizing entries with
  | nil => exact Or.inl h
  | cons first more ih =>
    rcases ih h with h | h
    · exact (mem_put h).imp_right fun e => by simp [e]
    · exact Or.inr (List.mem_cons_of_mem _ h)

/-- The table of a list of pairs holds nothing else. -/
theorem mem_ofPairs {pairs : List (String × α)} {entry : String × α}
    (h : entry ∈ ofPairs pairs) : entry ∈ pairs := by
  simpa using mem_putAll h

theorem distinct_remove {entries : Entries α} (h : entries.Distinct) (key : String) :
    (entries.remove key).Distinct := h.sublist (List.filter_sublist.map _)

/-- Nothing is removed under a name that is absent. -/
theorem remove_eq_self {entries : Entries α} {key : String} (h : entries.value? key = none) :
    entries.remove key = entries := by
  refine List.filter_eq_self.2 fun entry hm => ?_
  have hk : entry.1 ≠ key := fun e => value?_eq_none_iff.1 h (e ▸ mem_keys_of_mem hm)
  simpa using hk

/-! ### Tables entry by entry -/

/-- Two tables have the same names in the same order and related values under them. -/
def Related (R : String → α → β → Prop) (a : Entries α) (b : Entries β) : Prop :=
  List.Forall₂ (fun x y => x.1 = y.1 ∧ R x.1 x.2 y.2) a b

theorem related_put {R : String → α → β → Prop} {a : Entries α} {b : Entries β}
    (h : Related R a b) {key : String} {v : α} {w : β} (hvw : R key v w) :
    Related R (a.put key v) (b.put key w) := by
  induction h with
  | nil => exact .cons ⟨rfl, hvw⟩ .nil
  | @cons x y a b hxy hab ih =>
    obtain ⟨k, x⟩ := x
    obtain ⟨k', y⟩ := y
    obtain ⟨rfl, hr⟩ := hxy
    by_cases hk : k = key
    · subst hk
      simp only [put, if_true]
      exact .cons ⟨rfl, hvw⟩ hab
    · simp only [put, hk, if_false]
      exact .cons ⟨rfl, hr⟩ ih

theorem related_putAll {R : String → α → β → Prop} {a : Entries α} {b : Entries β}
    (h : Related R a b) {more : List (String × α)} {others : List (String × β)}
    (hm : Related R more others) : Related R (a.putAll more) (b.putAll others) := by
  induction hm generalizing a b with
  | nil => exact h
  | @cons x y more others hxy hmo ih =>
    obtain ⟨k, x⟩ := x
    obtain ⟨k', y⟩ := y
    obtain ⟨rfl, hr⟩ := hxy
    exact ih (related_put h hr)

/-- Related lists of pairs make related tables. -/
theorem related_ofPairs {R : String → α → β → Prop} {a : List (String × α)}
    {b : List (String × β)} (h : Related R a b) : Related R (ofPairs a) (ofPairs b) :=
  related_putAll .nil h

/-! ### Equality as maps -/

theorem value?_isSome_iff {entries : Entries α} {key : String} :
    (entries.value? key).isSome ↔ key ∈ entries.keys := has_eq_true_iff

theorem agree_iff_mem [DecidableEq α] {a b : Entries α} :
    agree (· == ·) a b = true ↔
      a.length = b.length ∧ ∀ entry ∈ a, b.value? entry.1 = some entry.2 := by
  simp only [agree, Bool.and_eq_true, beq_iff_eq, List.all_eq_true]
  refine and_congr_right fun _ => forall₂_congr fun entry _ => ?_
  split
  · rename_i value hv
    rw [hv, beq_iff_eq, Option.some.injEq, eq_comm]
  · rename_i hv
    simp [hv]

/-- Tables without repeated names agree exactly if they give every name the same value. -/
theorem agree_iff [DecidableEq α] {a b : Entries α} (ha : a.Distinct) (hb : b.Distinct) :
    agree (· == ·) a b = true ↔ ∀ key, a.value? key = b.value? key := by
  rw [agree_iff_mem]
  constructor
  · rintro ⟨hl, h⟩ key
    have hsub : a.keys ⊆ b.keys := by
      intro k hk
      obtain ⟨value, hv⟩ := Option.isSome_iff_exists.1 (value?_isSome_iff.2 hk)
      exact value?_isSome_iff.1 (by simp [h _ (mem_of_value? hv)])
    -- as many names, none twice, and all of them in the other table: so they are the same names
    have hperm : a.keys.Perm b.keys :=
      (List.subperm_of_subset ha hsub).perm_of_length_le (by simp [keys, hl])
    cases hv : a.value? key with
    | some value => exact (h _ (mem_of_value? hv)).symm
    | none =>
      rw [value?_eq_none_iff, hperm.mem_iff, ← value?_eq_none_iff] at hv
      exact hv.symm
  · intro h
    have hperm : a.keys.Perm b.keys := by
      rw [List.perm_ext_iff_of_nodup ha hb]
      intro key
      rw [← value?_isSome_iff, h, value?_isSome_iff]
    have hl := hperm.length_eq
    simp only [keys, List.length_map] at hl
    exact ⟨hl, fun entry hm => by rw [← h, value?_of_mem ha hm]⟩

end SoapTypes.Entries
