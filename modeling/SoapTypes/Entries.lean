/-!
# Ordered entries

Tables from names to values that remember the order in which their names first came. Putting a
value under a name that is present keeps the name's place; a new name goes to the end.

* `Entries.value?_put` and `Entries.keys_put` say what `put` does to the values and to the order.
* `Entries.agree` compares two tables as maps: the order does not count.
-/

namespace SoapTypes

universe u

/-- Values under names, in the order in which the names first came. -/
abbrev Entries (α : Type u) := List (String × α)

namespace Entries

variable {α : Type u}

/-- The names, in order. -/
def keys (entries : Entries α) : List String := entries.map Prod.fst

/-- The values, in the order of their names. -/
def values (entries : Entries α) : List α := entries.map Prod.snd

/-- The value under a name: the first one, if a raw list repeats the name. -/
def value? : Entries α → String → Option α
  | [], _ => none
  | (k, v) :: rest, key => if k = key then some v else value? rest key

/-- Whether a name is present. -/
def has (entries : Entries α) (key : String) : Bool := (entries.value? key).isSome

/-- Set the value under a name, in the name's place if it has one and at the end otherwise. -/
def put : Entries α → String → α → Entries α
  | [], key, value => [(key, value)]
  | (k, v) :: rest, key, value =>
    if k = key then (k, value) :: rest else (k, v) :: put rest key value

/-- Forget a name. -/
def remove (entries : Entries α) (key : String) : Entries α :=
  entries.filter fun entry => entry.1 ≠ key

/-- Put the entries of a list one after the other. -/
def putAll (entries : Entries α) (more : List (String × α)) : Entries α :=
  more.foldl (fun acc entry => acc.put entry.1 entry.2) entries

/-- The table of a list in which names may repeat: the first place and the last value stay. -/
def ofPairs (pairs : List (String × α)) : Entries α := putAll [] pairs

/-- Replace the value under a name by a function of what is there. -/
def alter (entries : Entries α) (key : String) (f : Option α → α) : Entries α :=
  entries.put key (f (entries.value? key))

/-- No name stands twice. -/
def Distinct (entries : Entries α) : Prop := entries.keys.Nodup

/-- Equality of tables as maps, with `same` for the values. -/
def agree (same : α → α → Bool) (a b : Entries α) : Bool :=
  a.length == b.length && a.all fun entry =>
    match b.value? entry.1 with
    | some value => same entry.2 value
    | none => false

@[simp] theorem keys_nil : keys ([] : Entries α) = [] := rfl
@[simp] theorem keys_cons (k : String) (v : α) (rest : List (String × α)) :
    keys ((k, v) :: rest) = k :: keys rest := rfl
@[simp] theorem value?_nil (key : String) : value? ([] : Entries α) key = none := rfl
@[simp] theorem putAll_nil (entries : Entries α) : entries.putAll [] = entries := rfl
@[simp] theorem putAll_cons (entries : Entries α) (entry : String × α) (more : List (String × α)) :
    entries.putAll (entry :: more) = (entries.put entry.1 entry.2).putAll more := rfl

theorem putAll_append (entries : Entries α) (more others : List (String × α)) :
    entries.putAll (more ++ others) = (entries.putAll more).putAll others := by
  simp [putAll, List.foldl_append]

/-- After a `put` the name has the new value and every other name the value it had. -/
@[simp] theorem value?_put (entries : Entries α) (key : String) (value : α) (other : String) :
    (entries.put key value).value? other =
      if key = other then some value else entries.value? other := by
  induction entries with
  | nil => simp [put, value?]
  | cons entry rest ih =>
    obtain ⟨k, v⟩ := entry
    by_cases hk : k = key
    · subst hk; by_cases ho : k = other <;> simp [put, value?, ho]
    · by_cases ho : key = other
      · subst ho; simpa [put, value?, hk] using ih
      · by_cases hko : k = other <;> simp_all [put, value?]

/-- After an `alter` the name has the value of the function and every other name what it had. -/
theorem value?_alter (entries : Entries α) (key : String) (f : Option α → α) (other : String) :
    (entries.alter key f).value? other =
      if key = other then some (f (entries.value? key)) else entries.value? other := by
  rw [alter, value?_put]

/-- A `put` keeps the order of the names and adds a new one at the end. -/
theorem keys_put (entries : Entries α) (key : String) (value : α) :
    (entries.put key value).keys =
      if key ∈ entries.keys then entries.keys else entries.keys ++ [key] := by
  induction entries with
  | nil => simp [put]
  | cons entry rest ih =>
    obtain ⟨k, v⟩ := entry
    by_cases hk : k = key
    · simp [put, hk]
    · have hk' : ¬ key = k := fun h => hk h.symm
      by_cases hm : key ∈ keys rest <;> simp [put, hk, hk', ih, hm]

/-- After a `remove` the name has no value and every other name the value it had. -/
@[simp] theorem value?_remove (entries : Entries α) (key other : String) :
    (entries.remove key).value? other = if key = other then none else entries.value? other := by
  induction entries with
  | nil => simp [remove]
  | cons entry rest ih =>
    obtain ⟨k, v⟩ := entry
    simp only [remove] at ih ⊢
    by_cases hk : k = key
    · subst hk
      by_cases ho : k = other
      · subst ho; simpa using ih
      · simpa [value?, ho] using ih
    · by_cases ho : k = other
      · subst ho; simp [value?, hk, Ne.symm hk]
      · simpa [value?, hk, ho] using ih

theorem value?_eq_none_iff {entries : Entries α} {key : String} :
    entries.value? key = none ↔ key ∉ entries.keys := by
  induction entries with
  | nil => simp
  | cons entry rest ih =>
    obtain ⟨k, v⟩ := entry
    by_cases hk : k = key
    · simp [value?, hk]
    · have hk' : ¬ key = k := fun h => hk h.symm
      simp [value?, hk, hk', ih]

theorem has_eq_true_iff {entries : Entries α} {key : String} :
    entries.has key = true ↔ key ∈ entries.keys := by
  rw [has, Option.isSome_iff_ne_none, ne_eq, value?_eq_none_iff, Decidable.not_not]

theorem distinct_put {entries : Entries α} (h : entries.Distinct) (key : String) (value : α) :
    (entries.put key value).Distinct := by
  unfold Distinct at *
  rw [keys_put]
  split
  · exact h
  · rename_i hm
    exact List.nodup_append.2 ⟨h, by simp, by
      intro a ha b hb hab
      simp only [List.mem_singleton] at hb
      exact hm (hb ▸ hab ▸ ha)⟩

theorem distinct_putAll {entries : Entries α} (h : entries.Distinct)
    (more : List (String × α)) : (entries.putAll more).Distinct := by
  induction more generalizing entries with
  | nil => exact h
  | cons entry more ih => exact ih (distinct_put h entry.1 entry.2)

/-- A table made from pairs has no name twice. -/
theorem distinct_ofPairs (pairs : List (String × α)) : (ofPairs pairs).Distinct :=
  distinct_putAll (by simp [Distinct]) pairs

end Entries

end SoapTypes
