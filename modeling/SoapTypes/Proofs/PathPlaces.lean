import Mathlib.Data.List.Induction
import SoapTypes.Files.Path
import SoapTypes.Proofs.TextLines

/-!
# Where joined paths lead

A path that is put behind another one is followed from the place where that one leads. A way that
climbs first leaves so many directories, and may come down again by other names.

* `Place.go` follows a way from a place; `Place.foldl_follow`: following names one by one is going
  their way.
* `Path.place_joinAll`: the place of a path with names behind it.
* `Path.LiesBelow` compares paths by where they lead; `Path.liesBelow_iff` says which ways stay
  below a directory.
-/

namespace SoapTypes

/-! ### Pieces of texts -/

namespace Text

/-- The pieces of two texts with the separator between them. -/
theorem allPieces_append_sep (s t : String) :
    allPieces '/' (s ++ "/" ++ t) = allPieces '/' s ++ allPieces '/' t := by
  have hc : (s ++ "/" ++ t).toList = s.toList ++ '/' :: t.toList := by
    simp [String.toList_append]
  rw [allPieces_eq, allPieces_eq, allPieces_eq, hc, cut_append_sep]
  simp

theorem exists_cut_append {sep : Char} {ds : List Char} (h : sep ∉ ds) (cs : List Char) :
    ∃ before last, (cut sep cs).1 :: (cut sep cs).2 = before ++ [last] ∧
      (cut sep (cs ++ ds)).1 :: (cut sep (cs ++ ds)).2 = before ++ [last ++ ds] := by
  induction cs with
  | nil => exact ⟨[], [], rfl, by simp [cut_of_not_mem h]⟩
  | cons c cs ih =>
    obtain ⟨before, last, hcs, hall⟩ := ih
    rw [List.cons_append, cut_cons, cut_cons]
    split
    · exact ⟨[] :: before, last, by simp [hcs], by simp [hall]⟩
    · -- the character belongs to the first piece, which may be the last one, too
      cases before with
      | nil =>
        obtain ⟨hfirst, hrest⟩ := List.cons.inj hcs
        obtain ⟨hfirst', hrest'⟩ := List.cons.inj hall
        exact ⟨[], c :: last, by simp [hfirst, hrest], by simp [hfirst', hrest']⟩
      | cons first before =>
        obtain ⟨hfirst, hrest⟩ := List.cons.inj hcs
        obtain ⟨hfirst', hrest'⟩ := List.cons.inj hall
        exact ⟨(c :: first) :: before, last, by simp [hfirst, hrest], by simp [hfirst', hrest']⟩

/-- A text without the separator lengthens the last piece of what stands before it. -/
theorem exists_allPieces_append {sep : Char} {t : String} (h : sep ∉ t.toList) (s : String) :
    ∃ before last, allPieces sep s = before ++ [last] ∧
      allPieces sep (s ++ t) = before ++ [last ++ t] := by
  obtain ⟨before, last, hs, hst⟩ := exists_cut_append h s.toList
  refine ⟨before.map String.ofList, String.ofList last, ?_, ?_⟩
  · rw [allPieces_eq, ← List.map_cons, hs]
    simp
  · rw [allPieces_eq, ← List.map_cons, String.toList_append, hst]
    simp

end Text

/-! ### Ways -/

namespace Place

/-- Follow a way from a place: climb first, and then go down by its names. -/
def go (here way : Place) : Place :=
  ⟨here.up + (way.up - here.names.length), way.names ++ here.names.drop way.up⟩

theorem go_follow (here way : Place) (name : String) :
    (here.go way).follow name = here.go (way.follow name) := by
  unfold follow
  split
  · rfl
  · split
    · -- a step up takes off the last name of the way, or the next name in front of it
      cases hway : way.names with
      | cons last names => simp [go, hway]
      | nil =>
        have htail : here.names.drop (way.up + 1) = (here.names.drop way.up).tail :=
          List.tail_drop.symm
        cases hrest : here.names.drop way.up with
        | nil =>
          have hlength : here.names.length ≤ way.up := List.drop_eq_nil_iff.1 hrest
          simp only [go, hway, hrest, htail, List.nil_append, List.tail_nil, Place.mk.injEq,
            and_true]
          omega
        | cons last names =>
          have hlength : way.up < here.names.length := by
            by_contra h
            rw [List.drop_eq_nil_of_le (Nat.le_of_not_lt h)] at hrest
            cases hrest
          simp only [go, hway, hrest, htail, List.nil_append, List.tail_cons, Place.mk.injEq,
            and_true]
          omega
    · simp [go]

theorem go_nil (here : Place) : here.go {} = here := by simp [go]

/-- Following names one by one is going the way that they make. -/
theorem foldl_follow (names : List String) (here : Place) :
    names.foldl follow here = here.go (names.foldl follow {}) := by
  induction names using List.reverseRecOn with
  | nil => exact (go_nil here).symm
  | append_singleton names name ih =>
    rw [List.foldl_concat, List.foldl_concat, ih, go_follow]

end Place

/-! ### Joined paths -/

namespace Path

theorem place_append_slash (path more : String) :
    place (path ++ "/" ++ more) = (Text.allPieces '/' more).foldl Place.follow (place path) := by
  rw [place, Text.allPieces_append_sep, List.foldl_append]
  rfl

theorem exists_of_endsInSlash {path : String} (h : endsInSlash path = true) :
    ∃ start, path = start ++ "/" := by
  rw [endsInSlash, beq_iff_eq, List.getLast?_eq_some_iff] at h
  obtain ⟨start, hs⟩ := h
  exact ⟨String.ofList start, String.toList_inj.1 (by simp [hs, String.toList_append])⟩

theorem isAbsolute_of_not_mem {name : String} (h : '/' ∉ name.toList) :
    isAbsolute name = false := by
  rw [isAbsolute, beq_eq_false_iff_ne]
  exact fun hh => h (List.mem_of_mem_head? hh)

section Join

variable {path name : String}

theorem join_of_not_mem (hn : '/' ∉ name.toList) (hp : path ≠ "") :
    join path name = if endsInSlash path then path ++ name else path ++ "/" ++ name := by
  have he : path.isEmpty = false := by simpa using hp
  rw [join, isAbsolute_of_not_mem hn, he]
  simp

theorem join_ne_empty (hn : '/' ∉ name.toList) (hp : path ≠ "") : join path name ≠ "" := by
  rw [join_of_not_mem hn hp]
  split <;> simp [hp]

theorem isAbsolute_append (hp : path ≠ "") (more : String) :
    isAbsolute (path ++ more) = isAbsolute path := by
  have hne : path.toList ≠ [] := by simpa using hp
  obtain ⟨c, cs, hc⟩ := List.exists_cons_of_ne_nil hne
  simp [isAbsolute, String.toList_append, hc]

theorem isAbsolute_join (hn : '/' ∉ name.toList) (hp : path ≠ "") :
    isAbsolute (join path name) = isAbsolute path := by
  rw [join_of_not_mem hn hp]
  split
  · exact isAbsolute_append hp name
  · rw [String.append_assoc, isAbsolute_append hp]

/-- A name that is joined to a path is followed from its place. -/
theorem place_join (hn : '/' ∉ name.toList) (hp : path ≠ "") :
    place (join path name) = (place path).follow name := by
  rw [join_of_not_mem hn hp]
  split
  · rename_i hs
    obtain ⟨start, rfl⟩ := exists_of_endsInSlash hs
    have hstart : place (start ++ "/") = place start := by
      have h := place_append_slash start ""
      rw [String.append_empty] at h
      exact h
    rw [place_append_slash, Text.allPieces_of_not_mem hn, hstart]
    rfl
  · rw [place_append_slash, Text.allPieces_of_not_mem hn]
    rfl

/-- What is put behind the last name of a path lengthens the name. -/
theorem join_append {suffix : String} (hn : '/' ∉ name.toList) (hs : '/' ∉ suffix.toList)
    (hp : path ≠ "") : join path name ++ suffix = join path (name ++ suffix) := by
  have hns : '/' ∉ (name ++ suffix).toList := by simp [String.toList_append, hn, hs]
  rw [join_of_not_mem hn hp, join_of_not_mem hns hp]
  split <;> simp [String.append_assoc]

end Join

theorem joinAll_ne_empty {names : List String} (hn : ∀ name ∈ names, '/' ∉ name.toList)
    {path : String} (hp : path ≠ "") : joinAll path names ≠ "" := by
  induction names generalizing path with
  | nil => exact hp
  | cons name names ih =>
    obtain ⟨hname, hnames⟩ := List.forall_mem_cons.1 hn
    exact ih hnames (join_ne_empty hname hp)

/-- Names that are joined to a path are followed from its place. -/
theorem place_joinAll {names : List String} (hn : ∀ name ∈ names, '/' ∉ name.toList) {path : String}
    (hp : path ≠ "") :
    place (joinAll path names) = names.foldl Place.follow (place path) ∧
      isAbsolute (joinAll path names) = isAbsolute path := by
  induction names generalizing path with
  | nil => exact ⟨rfl, rfl⟩
  | cons name names ih =>
    obtain ⟨hname, hnames⟩ := List.forall_mem_cons.1 hn
    obtain ⟨hplace, habsolute⟩ := ih hnames (join_ne_empty hname hp)
    rw [place_join hname hp] at hplace
    rw [isAbsolute_join hname hp] at habsolute
    exact ⟨hplace, habsolute⟩

/-! ### Where paths lead -/

/-- Where a path leads: from the root, above which there is nothing, or from the working
directory. -/
def destination (path : String) : Bool × Place :=
  (isAbsolute path, ⟨if isAbsolute path then 0 else (place path).up, (place path).names⟩)

/-- A path leads to a place below a directory, as far as the two paths show it. -/
def LiesBelow (path directory : String) : Prop :=
  (destination path).1 = (destination directory).1 ∧
    (destination path).2.up = (destination directory).2.up ∧
    (destination directory).2.names <:+ (destination path).2.names ∧
    (destination directory).2.names ≠ (destination path).2.names

instance (path directory : String) : Decidable (LiesBelow path directory) :=
  inferInstanceAs (Decidable (_ ∧ _))

/-- A path leads below a directory from which a way leads to it exactly if this way comes down again
by the names that it leaves when it climbs, and goes on. -/
theorem liesBelow_iff {path directory : String} {way : Place}
    (hp : place path = (place directory).go way) (ha : isAbsolute path = isAbsolute directory) :
    LiesBelow path directory ↔
      (isAbsolute directory = true ∨ way.up ≤ (place directory).names.length) ∧
      (place directory).names.take way.up <:+ way.names ∧
      (place directory).names.take way.up ≠ way.names := by
  have hup : (if isAbsolute directory = true then 0
        else (place directory).up + (way.up - (place directory).names.length)) =
      (if isAbsolute directory = true then 0 else (place directory).up) ↔
      (isAbsolute directory = true ∨ way.up ≤ (place directory).names.length) := by
    cases isAbsolute directory
    · simp
      omega
    · simp
  -- what the way does not leave stands at the end of both lists of names
  have hsuffix := @List.suffix_append_self_iff _ ((place directory).names.take way.up) way.names
    ((place directory).names.drop way.up)
  have heq := @List.append_left_inj _ ((place directory).names.take way.up) way.names
    ((place directory).names.drop way.up)
  rw [List.take_append_drop] at hsuffix heq
  simp only [LiesBelow, destination, hp, ha, Place.go, true_and, hup, hsuffix, ne_eq, heq]

end Path

end SoapTypes
