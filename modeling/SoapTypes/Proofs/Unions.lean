import SoapTypes.Catalog.Build
import SoapTypes.Catalog.Merge
import SoapTypes.Catalog.Output
import SoapTypes.Proofs.Tables

/-!
# Unions of ordered tables

Tables are united by going through the second one and changing the first one entry by entry:
`putAll` replaces the value of a name, `uniteNamespaces` unites it with the new one. Both are
`uniteWith`, for two ways to make a value from the one that is held and the one that comes.

* `value?_uniteWith` and `keys_uniteWith`: the values and the order of the names in a union.
* `uniteWith_assoc`: unions are associative, order included, if the values are united
  associatively.
* `SameMap` is equality as maps; `value?_putAll_perm` says that the order of what is put does not
  matter to it.
-/

namespace SoapTypes

/-! ### Names in the order of their first use -/

theorem addNew_append (names more others : List String) :
    addNew names (more ++ others) = addNew (addNew names more) others := List.foldl_append

theorem mem_addNew {names more : List String} {name : String} :
    name ∈ addNew names more ↔ name ∈ names ∨ name ∈ more := by
  induction more generalizing names with
  | nil => simp [addNew]
  | cons first more ih =>
    have hm : name ∈ addNew names (first :: more) ↔
        name ∈ (if names.contains first then names else names ++ [first]) ∨ name ∈ more := ih
    rw [hm, List.mem_cons]
    split
    · rename_i hc
      rw [List.contains_iff_mem] at hc
      constructor
      · rintro (h | h)
        · exact .inl h
        · exact .inr (.inr h)
      · rintro (h | rfl | h)
        · exact .inl h
        · exact .inl hc
        · exact .inr h
    · simp [or_assoc]

theorem addNew_assoc (a b c : List String) :
    addNew (addNew a b) c = addNew a (addNew b c) := by
  induction c generalizing b with
  | nil => rfl
  | cons name c ih =>
    -- the names come one by one, so it is enough to look at the first of them
    have hone : addNew (addNew a b) [name] = addNew a (addNew b [name]) := by
      by_cases hb : name ∈ b
      · have hl : addNew (addNew a b) [name] = addNew a b :=
          if_pos (List.contains_iff_mem.2 (mem_addNew.2 (.inr hb)))
        have hr : addNew b [name] = b := if_pos (List.contains_iff_mem.2 hb)
        rw [hl, hr]
      · have hr : addNew b [name] = b ++ [name] := if_neg (mt List.contains_iff_mem.1 hb)
        rw [hr, addNew_append]
    calc addNew (addNew a b) (name :: c)
        = addNew (addNew (addNew a b) [name]) c := rfl
      _ = addNew (addNew a (addNew b [name])) c := by rw [hone]
      _ = addNew a (addNew (addNew b [name]) c) := ih _

namespace Entries

variable {α β : Type}

/-! ### Tables with the same names and values -/

/-- Tables without repeated names are equal if they have the same names in the same order with the
same values. -/
theorem eq_of_keys_eq {a b : Entries α} (ha : a.Distinct) (hk : a.keys = b.keys)
    (hv : ∀ key, a.value? key = b.value? key) : a = b := by
  induction a generalizing b with
  | nil =>
    rw [keys_nil] at hk
    exact (List.map_eq_nil_iff.1 hk.symm).symm
  | cons entry a ih =>
    obtain ⟨key, value⟩ := entry
    cases b with
    | nil => simp at hk
    | cons entry' b =>
      obtain ⟨key', value'⟩ := entry'
      rw [keys_cons, keys_cons, List.cons.injEq] at hk
      obtain ⟨rfl, hk⟩ := hk
      obtain ⟨hn, ha⟩ := List.nodup_cons.1 ha
      have hfirst : value = value' := by simpa [value?] using hv key
      have hrest : ∀ other, Entries.value? a other = Entries.value? b other := by
        intro other
        by_cases ho : key = other
        · -- the first name stands in neither of the rests
          subst ho
          have hn' : key ∉ Entries.keys b := by
            rw [← hk]
            exact hn
          rw [value?_eq_none_iff.2 hn, value?_eq_none_iff.2 hn']
        · simpa [value?, ho] using hv other
      rw [hfirst, ih ha hk hrest]

/-- Two tables are equal as maps. -/
def SameMap (a b : Entries α) : Prop := ∀ key, a.value? key = b.value? key

theorem value?_map (entries : Entries α) (f : String → α → β) (key : String) :
    Entries.value? (entries.map fun entry => (entry.1, f entry.1 entry.2)) key =
      (entries.value? key).map (f key) := by
  induction entries with
  | nil => rfl
  | cons entry entries ih =>
    obtain ⟨k, v⟩ := entry
    by_cases hk : k = key
    · subst hk
      simp [value?]
    · simpa [value?, hk] using ih

/-- The order of entries without repeated names does not matter to the values. -/
theorem value?_perm {a b : Entries α} (ha : a.Distinct) (h : a.Perm b) : SameMap a b := by
  intro key
  have hb : b.Distinct := (h.map Prod.fst).nodup_iff.1 ha
  rw [Option.ext_iff]
  intro value
  constructor
  · intro hv
    exact value?_of_mem hb (h.mem_iff.1 (mem_of_value? hv))
  · intro hv
    exact value?_of_mem ha (h.mem_iff.2 (mem_of_value? hv))

/-- Two tables of tables are equal as maps of maps. -/
def SameTables (a b : Entries (Entries α)) : Prop :=
  ∀ key, Option.Rel SameMap (a.value? key) (b.value? key)

theorem SameTables.refl (a : Entries (Entries α)) : SameTables a a := by
  intro key
  cases a.value? key with
  | none => exact .none
  | some entries => exact .some fun _ => rfl

/-- Tables of which none stands twice and none repeats a name. -/
structure DistinctTables (tables : Entries (Entries α)) : Prop where
  names : tables.Distinct
  entries : ∀ entry ∈ tables, Entries.Distinct entry.2

theorem distinctTables_iff {tables : Entries (Entries α)} :
    DistinctTables tables ↔ tables.Distinct ∧ ∀ entry ∈ tables, Entries.Distinct entry.2 :=
  ⟨fun h => ⟨h.names, h.entries⟩, fun h => ⟨h.1, h.2⟩⟩

theorem distinctTables_nil : DistinctTables ([] : Entries (Entries α)) :=
  ⟨List.nodup_nil, by simp⟩

theorem DistinctTables.put {tables : Entries (Entries α)} (h : DistinctTables tables) (key : String)
    {entries : Entries α} (hd : entries.Distinct) : DistinctTables (tables.put key entries) where
  names := distinct_put h.names key entries
  entries := by
    intro entry he
    rcases mem_put he with he | rfl
    · exact h.entries entry he
    · exact hd

/-- What stands under a name, or nothing, repeats no name. -/
theorem DistinctTables.getD {tables : Entries (Entries α)} (h : DistinctTables tables)
    (key : String) : Entries.Distinct ((tables.value? key).getD []) := by
  cases hv : tables.value? key with
  | none => exact List.nodup_nil
  | some entries => exact h.entries _ (mem_of_value? hv)

/-! ### Unions -/

/-- Unite two tables: the value of a name in the second one and what the first one holds under it
become the new value. -/
def uniteWith (unite : Option α → α → α) (a b : Entries α) : Entries α :=
  b.foldl (fun acc entry => acc.alter entry.1 fun held => unite held entry.2) a

@[simp] theorem uniteWith_cons (unite : Option α → α → α) (a : Entries α) (key : String) (value : α)
    (b : List (String × α)) :
    uniteWith unite a ((key, value) :: b) =
      uniteWith unite (a.alter key fun held => unite held value) b := rfl

theorem putAll_eq_uniteWith (a b : Entries α) : a.putAll b = uniteWith (fun _ value => value) a b :=
  rfl

theorem keys_alter (entries : Entries α) (key : String) (f : Option α → α) :
    (entries.alter key f).keys = addNew entries.keys [key] := by
  rw [alter, keys_put]
  by_cases hk : key ∈ entries.keys
  · rw [if_pos hk]
    exact (if_pos (List.contains_iff_mem.2 hk)).symm
  · rw [if_neg hk]
    exact (if_neg (mt List.contains_iff_mem.1 hk)).symm

variable {unite : Option α → α → α}

/-- The names of a union: those of the first table, and what is new in the second one. -/
theorem keys_uniteWith (a b : Entries α) :
    (uniteWith unite a b).keys = addNew a.keys b.keys := by
  induction b generalizing a with
  | nil => rfl
  | cons entry b ih =>
    obtain ⟨key, value⟩ := entry
    rw [uniteWith_cons, ih, keys_alter]
    rfl

theorem distinct_uniteWith {a : Entries α} (ha : a.Distinct) (b : Entries α) :
    (uniteWith unite a b).Distinct :=
  List.foldlRecOn b _ ha fun _ hd _ _ => distinct_put hd _ _

/-- The value of a name in a union. -/
theorem value?_uniteWith {b : Entries α} (hb : b.Distinct) (a : Entries α) (key : String) :
    (uniteWith unite a b).value? key =
      ((b.value? key).map (unite (a.value? key))).or (a.value? key) := by
  induction b generalizing a with
  | nil => rfl
  | cons entry b ih =>
    obtain ⟨k, v⟩ := entry
    obtain ⟨hk, hb⟩ := List.nodup_cons.1 hb
    rw [uniteWith_cons, ih hb, value?_alter]
    by_cases he : k = key
    · subst he
      simp [value?, value?_eq_none_iff.2 hk]
    · simp [value?, he]

theorem value?_putAll {b : Entries α} (hb : b.Distinct) (a : Entries α) (key : String) :
    (a.putAll b).value? key = (b.value? key).or (a.value? key) := by
  rw [putAll_eq_uniteWith, value?_uniteWith hb]
  cases b.value? key <;> rfl

theorem value?_putAll_perm {b b' : Entries α} (hb : b.Distinct) (h : b.Perm b') (a : Entries α) :
    SameMap (a.putAll b) (a.putAll b') := by
  intro key
  have hb' : b'.Distinct := (h.map Prod.fst).nodup_iff.1 hb
  rw [value?_putAll hb, value?_putAll hb', value?_perm hb h key]

/-- **Unions are associative**, with the order of the names, if the values are united
associatively and a value that comes alone stays as it is. -/
theorem uniteWith_assoc {a b c : Entries α} (ha : a.Distinct) (hb : b.Distinct) (hc : c.Distinct)
    (hnone : ∀ value, unite none value = value)
    (hassoc : ∀ key x y z, a.value? key = x → b.value? key = some y → c.value? key = some z →
      unite (some (unite x y)) z = unite x (unite (some y) z)) :
    uniteWith unite (uniteWith unite a b) c = uniteWith unite a (uniteWith unite b c) := by
  have hbc : (uniteWith unite b c).Distinct := distinct_uniteWith hb c
  refine eq_of_keys_eq (distinct_uniteWith (distinct_uniteWith ha b) c) ?_ fun key => ?_
  · simp only [keys_uniteWith, addNew_assoc]
  · rw [value?_uniteWith hc, value?_uniteWith hb, value?_uniteWith hbc, value?_uniteWith hc]
    cases hvb : b.value? key with
    | none =>
      cases hvc : c.value? key with
      | none => rfl
      | some z => simp [hnone]
    | some y =>
      cases hvc : c.value? key with
      | none => rfl
      | some z => simp [hassoc key _ y z rfl hvb hvc]

/-- Putting the entries of two tables one after the other is putting their union. -/
theorem putAll_assoc {a b c : Entries α} (ha : a.Distinct) (hb : b.Distinct) (hc : c.Distinct) :
    (a.putAll b).putAll c = a.putAll (b.putAll c) :=
  @uniteWith_assoc α (fun _ value => value) a b c ha hb hc (fun _ => rfl) fun _ _ _ _ _ _ _ => rfl

end Entries

namespace Catalog

open Entries

/-! ### Declarations and namespaces -/

/-- The declaration of a name after those of shared shapes were put. -/
theorem value?_putAll_sharedDeclaration {registered : Entries String} (h : registered.Distinct)
    (held : Entries String) (name : String) :
    (held.putAll (registered.map fun entry =>
      (entry.1, sharedDeclaration entry.1 entry.2))).value? name =
        ((registered.value? name).map (sharedDeclaration name)).or (held.value? name) := by
  have hkeys : (registered.map Prod.fst).Nodup := h
  have hd : Entries.Distinct (registered.map fun entry =>
      (entry.1, sharedDeclaration entry.1 entry.2)) := by
    simpa [Entries.Distinct, Entries.keys, Function.comp_def] using hkeys
  rw [value?_putAll hd, value?_map _ sharedDeclaration]

/-- The declarations of a namespace, with more of them. -/
def uniteDeclarations (held : Option (Entries String)) (more : Entries String) : Entries String :=
  match held with
  | none => more
  | some declarations => declarations.putAll more

theorem uniteNamespaces_eq (a b : Namespaces) :
    uniteNamespaces a b = uniteWith uniteDeclarations a b := rfl

theorem distinct_uniteDeclarations {held : Option (Entries String)} {more : Entries String}
    (hheld : ∀ declarations, held = some declarations → Entries.Distinct declarations)
    (hmore : Entries.Distinct more) : (uniteDeclarations held more).Distinct := by
  cases held with
  | none => exact hmore
  | some declarations => exact distinct_putAll (hheld _ rfl) more

theorem distinctTables_uniteNamespaces {a b : Namespaces} (ha : DistinctTables a)
    (hb : DistinctTables b) : DistinctTables (uniteNamespaces a b) := by
  rw [uniteNamespaces_eq]
  refine List.foldlRecOn b _ ha fun held hheld entry he => hheld.put entry.1 ?_
  refine distinct_uniteDeclarations (fun declarations hd => ?_) (hb.entries entry he)
  exact hheld.entries _ (mem_of_value? hd)

/-- Namespaces are united associatively, with the order of the namespaces and of what they
declare. -/
theorem uniteNamespaces_assoc {a b c : Namespaces} (ha : DistinctTables a)
    (hb : DistinctTables b) (hc : DistinctTables c) :
    uniteNamespaces (uniteNamespaces a b) c = uniteNamespaces a (uniteNamespaces b c) := by
  refine @uniteWith_assoc _ uniteDeclarations a b c ha.names hb.names hc.names (fun _ => rfl) ?_
  intro key x y z hx hy hz
  cases x with
  | none => rfl
  | some declarations =>
    exact putAll_assoc (ha.entries _ (mem_of_value? hx)) (hb.entries _ (mem_of_value? hy))
      (hc.entries _ (mem_of_value? hz))

end Catalog

end SoapTypes
