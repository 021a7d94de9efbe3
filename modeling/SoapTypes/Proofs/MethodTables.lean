import Mathlib.Data.List.Count
import Mathlib.Data.List.Nodup
import Mathlib.Data.List.Perm.Basic
import SoapTypes.Proofs.KeyedCatalog
import SoapTypes.Proofs.Unions

/-!
# The table of methods

Every operation puts two methods into the table of its endpoint, one under its own name and one
under the name of its promise. An operation may have the name of another one's promise. Then both
write to the same place, and what comes later in the description stays.

* `Catalog.value?_methods`: a signature is in the table if no later operation writes to its name.
* `Catalog.perm_keys_methods`: the names of the methods, each counted once.
* `Catalog.signatures_of_build`: which operations have which of their signatures after a build, and
  how many methods there are.
-/

namespace SoapTypes

theorem Text.getLast?_append {text : String} {last : Char} (h : text.toList.getLast? = some last)
    (start : String) : (start ++ text).toList.getLast? = some last := by
  rw [String.toList_append, List.getLast?_append, h]
  rfl

/-- An operation stands before another one. -/
def Operations.Before (operations : Operations) (first second : String) : Prop :=
  [first, second].Sublist (Entries.keys operations)

instance (operations : Operations) (first second : String) :
    Decidable (operations.Before first second) := inferInstanceAs (Decidable (List.Sublist _ _))

namespace Operations

variable {operations : Operations}

/-- What stands behind an operation are the operations that are left when one arrives at it. -/
theorem before_iff {before after : List (String × Operation)} {entry : String × Operation}
    (hd : Entries.Distinct (before ++ entry :: after)) {name : String} :
    Before (before ++ entry :: after) entry.1 name ↔ name ∈ Entries.keys after := by
  unfold Before
  induction before with
  | nil =>
    rw [List.nil_append, Entries.keys_cons, List.sublist_cons_iff]
    constructor
    · rintro (h | ⟨rest, he, h⟩)
      · exact h.subset (by simp)
      · cases he
        exact List.singleton_sublist.1 h
    · exact fun h => .inr ⟨[name], rfl, List.singleton_sublist.2 h⟩
  | cons first before ih =>
    obtain ⟨hk, hd⟩ := List.nodup_cons.1 hd
    have hne : entry.1 ≠ first.1 := fun e => hk (by simp [← e])
    rw [← ih hd, List.cons_append, Entries.keys_cons, List.sublist_cons_iff]
    exact or_iff_left fun ⟨rest, he, _⟩ => hne (List.cons.inj he).1

theorem not_before_self (hd : Entries.Distinct operations) (name : String) :
    ¬ operations.Before name name := fun h => List.nodup_iff_sublist.1 hd name h

theorem Before.mem_left {first second : String} (h : operations.Before first second) :
    first ∈ Entries.keys operations := h.subset (by simp)

theorem Before.mem_right {first second : String} (h : operations.Before first second) :
    second ∈ Entries.keys operations := h.subset (by simp)

theorem exists_split {name : String} (h : name ∈ Entries.keys operations) :
    ∃ before entry after, operations = before ++ entry :: after ∧ entry.1 = name := by
  obtain ⟨entry, he, rfl⟩ := List.mem_map.1 h
  obtain ⟨before, after, rfl⟩ := List.append_of_mem he
  exact ⟨before, entry, after, rfl, rfl⟩

/-- Of two operations only one stands before the other. -/
theorem Before.asymm (hd : Entries.Distinct operations) {first second : String}
    (h : operations.Before first second) : ¬ operations.Before second first := by
  obtain ⟨before, entry, after, rfl, rfl⟩ := exists_split h.mem_left
  obtain ⟨middle, entry', after, rfl, rfl⟩ := exists_split ((before_iff hd).1 h)
  intro h'
  have hsplit : before ++ entry :: (middle ++ entry' :: after) =
      (before ++ entry :: middle) ++ entry' :: after := by simp
  rw [hsplit] at hd h'
  have hm := (before_iff hd).1 h'
  -- the first one would stand at two places
  rw [Entries.Distinct, Entries.keys, List.map_append] at hd
  exact (List.nodup_append.1 hd).2.2 entry.1 (by simp) entry.1 (List.mem_cons_of_mem _ hm) rfl

end Operations

namespace Signature

theorem promiseName_injective {a b : String} (h : promiseName a = promiseName b) : a = b := by
  have hl := congrArg String.toList h
  simp only [promiseName, String.toList_append] at hl
  exact String.toList_inj.1 (List.append_cancel_right hl)

theorem promiseName_ne (operation : String) : promiseName operation ≠ operation := by
  intro h
  have hl := congrArg (fun name => name.toList.length) h
  simp [promiseName, String.toList_append] at hl

/-- One signature ends in `void`, the other in a bracket. -/
theorem callback_ne_promise (a b : String) : callback a ≠ promise b := by
  have ha : (callback a).toList.getLast? = some 'd' := Text.getLast?_append (by decide) _
  have hb : (promise b).toList.getLast? = some '>' := Text.getLast?_append (by decide) _
  intro h
  rw [h, hb] at ha
  exact absurd ha (by decide)

end Signature

namespace Catalog

open Signature

variable {operations : Operations} {held : Entries String}

/-- A signature stays if no later operation writes to its name. -/
theorem value?_methods {before after : List (String × Operation)} {entry : String × Operation}
    {pair : String × String} (hp : pair ∈ operationMethods entry)
    (hl : ∀ name ∈ Entries.keys after, name ≠ pair.1 ∧ promiseName name ≠ pair.1) :
    (held.putAll ((before ++ entry :: after).flatMap operationMethods)).value? pair.1 =
      some pair.2 := by
  rw [List.flatMap_append, List.flatMap_cons, Entries.putAll_append]
  refine Entries.value?_putAll_of_mem (List.mem_append_left _ hp) fun other ho => ?_
  rcases List.mem_append.1 ho with ho | ho
  · -- the two methods of one operation have different names
    have hne := promiseName_ne entry.1
    simp only [operationMethods, List.mem_cons, List.not_mem_nil, or_false] at hp ho
    rcases hp with rfl | rfl <;> rcases ho with ho | ho <;>
      simp_all [Prod.ext_iff, eq_comm (a := entry.1)]
  · obtain ⟨later, hm, ho⟩ := List.mem_flatMap.1 ho
    obtain ⟨hname, hpromise⟩ := hl later.1 (Entries.mem_keys_of_mem hm)
    simp only [operationMethods, List.mem_cons, List.not_mem_nil, or_false, Prod.mk.injEq] at ho
    rcases ho with ⟨e, -⟩ | ⟨e, -⟩
    · exact absurd e.symm hname
    · exact absurd e.symm hpromise

/-- An operation has its callback, if no later one promises under its name. -/
theorem value?_methods_callback (hd : Entries.Distinct operations) {name : String}
    (hm : name ∈ Entries.keys operations)
    (hl : ∀ other ∈ Entries.keys operations, promiseName other = name →
      ¬ operations.Before name other) :
    (held.putAll (operations.flatMap operationMethods)).value? name = some (callback name) := by
  obtain ⟨before, entry, after, rfl, rfl⟩ := Operations.exists_split hm
  have hp : (entry.1, callback entry.1) ∈ operationMethods entry := by simp [operationMethods]
  refine value?_methods hp fun later hlater => ⟨?_, fun e => ?_⟩
  · rintro rfl
    exact Operations.not_before_self hd _ ((Operations.before_iff hd).2 hlater)
  · have hbefore := (Operations.before_iff hd).2 hlater
    exact hl later hbefore.mem_right e hbefore

/-- An operation has its promise, if no later one has the name of the promise. -/
theorem value?_methods_promise (hd : Entries.Distinct operations) {name : String}
    (hm : name ∈ Entries.keys operations) (hl : ¬ operations.Before name (promiseName name)) :
    (held.putAll (operations.flatMap operationMethods)).value? (promiseName name) =
      some (promise name) := by
  obtain ⟨before, entry, after, rfl, rfl⟩ := Operations.exists_split hm
  have hp : (promiseName entry.1, promise entry.1) ∈ operationMethods entry := by
    simp [operationMethods]
  refine value?_methods hp fun later hlater => ⟨?_, fun e => ?_⟩
  · rintro rfl
    exact hl ((Operations.before_iff hd).2 hlater)
  · obtain rfl : later = entry.1 := promiseName_injective e
    exact Operations.not_before_self hd _ ((Operations.before_iff hd).2 hlater)

/-- The names of the methods of some operations. -/
theorem keys_methods (operations : Operations) :
    Entries.keys (operations.flatMap operationMethods) =
      (Entries.keys operations).flatMap fun name => [name, promiseName name] := by
  rw [Entries.keys, List.map_flatMap, Entries.keys, List.flatMap_map]
  rfl

theorem mem_keys_methods {name : String} :
    name ∈ Entries.keys (operations.flatMap operationMethods) ↔
      name ∈ Entries.keys operations ∨ ∃ operation ∈ Entries.keys operations,
        promiseName operation = name := by
  simp only [keys_methods, List.mem_flatMap, List.mem_cons, List.not_mem_nil, or_false]
  constructor
  · rintro ⟨operation, hm, rfl | rfl⟩
    · exact .inl hm
    · exact .inr ⟨operation, hm, rfl⟩
  · rintro (hm | ⟨operation, hm, rfl⟩)
    · exact ⟨name, hm, .inl rfl⟩
    · exact ⟨operation, hm, .inr rfl⟩

/-- The methods of an endpoint, each name once: those of the operations, and the promises that no
operation has the name of. -/
theorem perm_keys_methods (hd : Entries.Distinct operations) :
    (Entries.keys (Entries.ofPairs (operations.flatMap operationMethods))).Perm
      (Entries.keys operations ++ ((Entries.keys operations).map promiseName).filter
        (· ∉ Entries.keys operations)) := by
  have hpromises := List.Nodup.map (fun _ _ => promiseName_injective) hd
  refine (List.perm_ext_iff_of_nodup (Entries.distinct_ofPairs _)
    (List.Nodup.append hd (hpromises.filter _) ?_)).2 fun name => ?_
  · intro name hn hp
    exact of_decide_eq_true (List.mem_filter.1 hp).2 hn
  · rw [Entries.ofPairs, Entries.putAll_eq_uniteWith, Entries.keys_uniteWith, mem_addNew,
      mem_keys_methods, List.mem_append, List.mem_filter, List.mem_map, decide_eq_true_eq]
    by_cases hn : name ∈ Entries.keys operations <;> simp [hn]

/-- There are two methods for every operation, less one for every promise with the name of an
operation. -/
theorem length_methods (hd : Entries.Distinct operations) :
    (Entries.ofPairs (operations.flatMap operationMethods)).length +
      (Entries.keys operations).countP (fun name => promiseName name ∈ Entries.keys operations) =
      2 * operations.length := by
  have hlength := (perm_keys_methods hd).length_eq
  rw [List.length_append, ← List.countP_eq_length_filter, List.countP_map] at hlength
  have hsplit : (Entries.keys operations).length =
      (Entries.keys operations).countP (fun name => promiseName name ∈ Entries.keys operations) +
      (Entries.keys operations).countP ((· ∉ Entries.keys operations) ∘ promiseName) := by
    simpa [Function.comp_def] using List.length_eq_countP_add_countP (l := Entries.keys operations)
      (fun name => decide (promiseName name ∈ Entries.keys operations))
  simp only [Entries.keys, List.length_map] at hlength hsplit ⊢
  omega

/-- What a table of methods has for the operations of an endpoint: every name to which an operation
writes has the signature of the last one that does. -/
structure Signed (operations : Operations) (methods : Entries String) : Prop where
  callback_iff : ∀ name ∈ Entries.keys operations,
    (methods.value? name = some (callback name) ↔
      ∀ other ∈ Entries.keys operations, promiseName other = name →
        ¬ operations.Before name other)
  promise_iff : ∀ name ∈ Entries.keys operations,
    (methods.value? (promiseName name) = some (promise name) ↔
      ¬ operations.Before name (promiseName name))
  promise_of_before : ∀ name other, operations.Before name other → promiseName other = name →
    methods.value? name = some (promise other)
  callback_of_before : ∀ name, operations.Before name (promiseName name) →
    methods.value? (promiseName name) = some (callback (promiseName name))

theorem signed_putAll (hd : Entries.Distinct operations) (held : Entries String) :
    Signed operations (held.putAll (operations.flatMap operationMethods)) := by
  have hpromise : ∀ name other, operations.Before name other → promiseName other = name →
      (held.putAll (operations.flatMap operationMethods)).value? name = some (promise other) := by
    rintro _ other h rfl
    exact value?_methods_promise hd h.mem_right (h.asymm hd)
  have hcallback : ∀ name, operations.Before name (promiseName name) →
      (held.putAll (operations.flatMap operationMethods)).value? (promiseName name) =
        some (callback (promiseName name)) := by
    intro name h
    refine value?_methods_callback hd h.mem_right fun other _ he => ?_
    obtain rfl := promiseName_injective he
    exact h.asymm hd
  refine ⟨fun name hm => ⟨fun hv other _ he h => ?_, value?_methods_callback hd hm⟩,
    fun name hm => ⟨fun hv h => ?_, value?_methods_promise hd hm⟩, hpromise, hcallback⟩
  · rw [hpromise name other h he, Option.some.injEq] at hv
    exact callback_ne_promise _ _ hv.symm
  · rw [hcallback name h, Option.some.injEq] at hv
    exact callback_ne_promise _ _ hv

/-- **Which operations have which signatures.** After a build every endpoint of the description has
a table of methods. An operation has its callback there exactly if no later operation promises under
its name, and its promise exactly if no later operation has the name of the promise; otherwise the
later one has put its signature in this place. If the endpoint had no methods before, there are two
of them for every operation, less one for every promise with the name of an operation. -/
theorem signatures_of_build {start : Catalog} (hs : start.InStep) (options : Options)
    {description : Description} (hd : description.Keyed) :
    ∃ catalog, (build options description start).outcome = .ok catalog ∧
      ∀ service endpoint operations, Table.at? description service endpoint = some operations →
        ∃ methods, catalog.methods.at? service endpoint = some methods ∧
          Signed operations methods ∧
          (start.methods.at? service endpoint = none →
            methods.length + (Entries.keys operations).countP
              (fun name => promiseName name ∈ Entries.keys operations) = 2 * operations.length) := by
  obtain ⟨catalog, hb, -, hfilled, -⟩ := hs.build_tables options hd
  refine ⟨catalog, hb, fun service endpoint operations hat => ?_⟩
  obtain ⟨endpoints, hservice, hendpoint⟩ := Option.bind_eq_some_iff.1 hat
  have hdistinct : Entries.Distinct operations :=
    hd.operations _ (Entries.mem_of_value? hservice) _ (Entries.mem_of_value? hendpoint)
  refine ⟨_, (hfilled service endpoint operations hat).methods,
    signed_putAll hdistinct _, fun hnone => ?_⟩
  rw [endpointOr, hnone, Option.getD_none]
  exact length_methods hdistinct

/-- Two endpoints of one service, each with an operation that has the name of another one's promise:
in one it comes later, in the other it comes first. -/
def findsBothWays : Description :=
  [("Directory", [("Book", [("Find", ⟨[], []⟩), ("List", ⟨[], []⟩), ("FindAsync", ⟨[], []⟩)]),
    ("Map", [("FindAsync", ⟨[], []⟩), ("Find", ⟨[], []⟩)])])]

/-- `List` has both its signatures, `Find` loses its promise where it comes first, and `FindAsync`
its callback where it does. -/
theorem signatures_of_build_findsBothWays :
    empty.InStep ∧ findsBothWays.Keyed ∧
      ∃ catalog book map, (build {} findsBothWays empty).outcome = .ok catalog ∧
        catalog.methods.at? "Directory" "Book" = some book ∧
        catalog.methods.at? "Directory" "Map" = some map ∧
        book.value? "List" = some (callback "List") ∧
        book.value? "ListAsync" = some (promise "List") ∧
        book.value? "FindAsync" = some (callback "FindAsync") ∧
        map.value? "FindAsync" = some (promise "Find") ∧ book.length + 1 = 6 := by
  have hd : findsBothWays.Keyed := by decide
  obtain ⟨catalog, hb, h⟩ := signatures_of_build inStep_empty {} hd
  obtain ⟨book, hbook, hsigned, hlength⟩ := h "Directory" "Book" _ rfl
  obtain ⟨map, hmap, hsigned', -⟩ := h "Directory" "Map" _ rfl
  refine ⟨inStep_empty, hd, catalog, book, map, hb, hbook, hmap, ?_, ?_, ?_, ?_, hlength rfl⟩
  · exact (hsigned.callback_iff "List" (by decide)).2 (by decide)
  · exact (hsigned.promise_iff "List" (by decide)).2 (by decide)
  · exact hsigned.callback_of_before "Find" (by decide)
  · exact hsigned'.promise_of_before "FindAsync" "Find" (by decide) rfl

/-- **Two operations can write to one place.** The promise of `Find` is lost, and there is a method
less than two for every operation. -/
theorem build_loses_promise :
    ∃ catalog methods, findsBothWays.Keyed ∧
      (build {} findsBothWays empty).outcome = .ok catalog ∧
      catalog.methods.at? "Directory" "Book" = some methods ∧
      methods.value? (promiseName "Find") ≠ some (promise "Find") ∧
      methods.length = 2 * 3 - 1 := by
  have hd : findsBothWays.Keyed := by decide
  obtain ⟨catalog, hb, hfrom⟩ := exists_builtFrom {} hd
  refine ⟨catalog, _, hd, hb, (hfrom.filled "Directory" "Book" _ rfl).methods, ?_, by decide⟩
  rw [(signed_putAll (by decide) _).callback_of_before "Find" (by decide)]
  exact fun h => callback_ne_promise _ _ (Option.some.inj h)

end Catalog

end SoapTypes
