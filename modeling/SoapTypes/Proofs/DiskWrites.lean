import SoapTypes.Program
import SoapTypes.Proofs.PathPlaces

/-!
# Writing files to a disk

A file can be written if nothing is in its way: every name of its path is one, no file stands where
a directory is needed, and no directory in the place of the file. A file that is written is in the
way of those that need a directory in its place, and its directories are in the way of files in
their places. So a list of files can be written in any order or in none, and the writing ends at the
first file that cannot be.

* `Disk.Free` says that nothing is in the way of a file, and `Disk.Stands` what an obstacle is.
* `Disk.write_cases`: a file is written, or there is the obstacle that is named.
* `Disk.Unhindered` says that nothing is in the way of several files, and `Disk.unhindered_cons` takes
  this apart along the writing.
* `Program.writesUpTo_writeBelow`: how far the writing of some files gets.
* `Disk.content_withFiles_append`: what a written file holds in the end.
-/

namespace SoapTypes

/-! ### Names and spots of paths -/

namespace Text

/-- Apart from the separator a text has the characters of its pieces. -/
theorem mem_toList_iff_of_ne {sep c : Char} (h : c ≠ sep) (s : String) :
    c ∈ s.toList ↔ ∃ piece ∈ allPieces sep s, c ∈ piece.toList := by
  have hcut : ∀ cs : List Char, c ∈ cs ↔
      c ∈ (cut sep cs).1 ∨ ∃ piece ∈ (cut sep cs).2, c ∈ piece := by
    intro cs
    induction cs with
    | nil => simp
    | cons d cs ih =>
      rw [cut_cons, List.mem_cons, ih]
      split
      · rename_i hd
        simp [hd, h]
      · simp [or_assoc]
  rw [hcut, allPieces_eq]
  simp

end Text

/-- Names that are followed one after the other lead through the spots of both parts. -/
theorem Place.trail_append (here : Place) (names others : List String) :
    here.trail (names ++ others) =
      here.trail names ++ (names.foldl follow here).trail others := by
  induction names generalizing here with
  | nil => rfl
  | cons name names ih => rw [List.cons_append, trail, trail, ih, List.foldl_cons, List.cons_append]

namespace Path

open Place

/-- The pieces of a path are those in front of its last one, and this one. -/
theorem dropLast_concat_fileName (path : String) :
    (Text.allPieces '/' path).dropLast ++ [fileName path] = Text.allPieces '/' path := by
  have hne : Text.allPieces '/' path ≠ [] := by simp [Text.allPieces_eq]
  rw [fileName, List.getLastD_eq_getLast?, List.getLast?_eq_some_getLast hne]
  exact List.dropLast_concat_getLast hne

/-- Empty names lead nowhere. -/
theorem foldl_follow_filter (names : List String) (here : Place) :
    (names.filter fun name => !name.isEmpty).foldl follow here = names.foldl follow here := by
  induction names generalizing here with
  | nil => rfl
  | cons name names ih =>
    by_cases he : name = ""
    · subst he
      exact ih here
    · rw [List.filter_cons_of_pos (by simpa using he), List.foldl_cons, List.foldl_cons, ih]

/-- The names of a path that lead somewhere. -/
def names (path : String) : List String :=
  (Text.allPieces '/' path).filter fun name => !name.isEmpty

/-- The spots that a path leads through, its own spot included. -/
def spots (here : Spot) (path : String) : List Spot := (start here path).trail (names path)

/-- The spot of a path is where its names lead. -/
theorem foldl_follow_names (here : Spot) (path : String) :
    ((names path).foldl follow (start here path)).names = spot here path := by
  rw [names, foldl_follow_filter, spot]

/-- A path leads to its last name in the directory that the others lead to. -/
theorem spot_eq_follow (here : Spot) (path : String) :
    spot here path =
      (((directories path).foldl follow (start here path)).follow (fileName path)).names := by
  rw [spot, ← dropLast_concat_fileName path, List.foldl_concat, directories, foldl_follow_filter]

/-- A path leads to its place, taken from the root or from the working directory. -/
theorem spot_eq (here : Spot) (path : String) :
    spot here path =
      (place path).names ++ (if isAbsolute path then [] else here).drop (place path).up := by
  rw [spot, foldl_follow]
  rfl

/-- Paths with one destination lead to one spot, whatever the working directory is. -/
theorem spot_eq_of_destination_eq {path other : String} (h : destination path = destination other)
    (here : Spot) : spot here path = spot here other := by
  obtain ⟨ha, hplace⟩ := Prod.mk.injEq .. ▸ h
  obtain ⟨hup, hnames⟩ := Place.mk.injEq .. ▸ hplace
  rw [spot_eq, spot_eq, ← hnames, ← ha]
  cases habs : isAbsolute path with
  | true => simp
  | false =>
    rw [← ha, habs] at hup
    simpa using congrArg here.drop hup

section Join

variable {path name : String}

theorem allPieces_join (hn : '/' ∉ name.toList) (hp : path ≠ "") :
    ∃ others, Text.allPieces '/' (join path name) = others ++ [name] ∧
      (others.filter fun name => !name.isEmpty) = names path := by
  rw [join_of_not_mem hn hp]
  split
  · rename_i hs
    obtain ⟨first, rfl⟩ := exists_of_endsInSlash hs
    refine ⟨Text.allPieces '/' first, ?_, ?_⟩
    · rw [Text.allPieces_append_sep, Text.allPieces_of_not_mem hn]
    · have h := Text.allPieces_append_sep first ""
      rw [String.append_empty] at h
      rw [names, h, List.filter_append]
      exact (List.append_nil _).symm
  · exact ⟨_, by rw [Text.allPieces_append_sep, Text.allPieces_of_not_mem hn], rfl⟩

/-- In front of a name that is joined to a path stand the names of the path. -/
theorem directories_join (hn : '/' ∉ name.toList) (hp : path ≠ "") :
    directories (join path name) = names path := by
  obtain ⟨others, hall, hothers⟩ := allPieces_join hn hp
  rw [directories, hall, List.dropLast_concat, hothers]

theorem names_join (hn : '/' ∉ name.toList) (hp : path ≠ "") :
    names (join path name) = names path ++ [name].filter fun name => !name.isEmpty := by
  obtain ⟨others, hall, hothers⟩ := allPieces_join hn hp
  rw [names, hall, List.filter_append, hothers]

end Join

theorem names_joinAll {more : List String} (hn : ∀ name ∈ more, '/' ∉ name.toList) {path : String}
    (hp : path ≠ "") :
    names (joinAll path more) = names path ++ more.filter fun name => !name.isEmpty := by
  induction more generalizing path with
  | nil => exact (List.append_nil _).symm
  | cons name more ih =>
    obtain ⟨hname, hmore⟩ := List.forall_mem_cons.1 hn
    have h := ih hmore (join_ne_empty hname hp)
    rw [names_join hname hp, List.append_assoc, ← List.filter_append] at h
    exact h

end Path

namespace Lookup

/-- What a path leads to is a file. -/
def IsFile (held : Lookup) : Prop := ∃ bytes, held = .file bytes

@[simp] theorem not_isFile_missing : ¬ missing.IsFile := fun ⟨_, h⟩ => nomatch h

@[simp] theorem not_isFile_directory : ¬ directory.IsFile := fun ⟨_, h⟩ => nomatch h

@[simp] theorem isFile_file (bytes : ByteArray) : (file bytes).IsFile := ⟨bytes, rfl⟩

end Lookup

namespace Disk

open SoapTypes.Path

/-! ### Putting things on a disk -/

/-- The disk with directories at some spots where nothing was. -/
def withDirectories (disk : Disk) (spots : List Spot) : Disk :=
  { disk with
    content := fun spot =>
      match disk.content spot with
      | .missing => if spot ∈ spots then .directory else .missing
      | held => held }

/-- The disk with a file at a path and the directories on the way to it. -/
def withFile (disk : Disk) (path text : String) : Disk :=
  (disk.withDirectories (directorySpots disk.here path)).put (spot disk.here path)
    (.file text.toUTF8)

/-- The disk with several files, which are put there one after the other. -/
def withFiles (disk : Disk) (writes : List Write) : Disk :=
  writes.foldl (fun disk write => disk.withFile write.path write.text) disk

@[simp] theorem here_withFile (disk : Disk) (path text : String) :
    (disk.withFile path text).here = disk.here := rfl

section Content

variable {disk : Disk} {spots : List Spot} {s : Spot}

theorem content_put_self (disk : Disk) (s : Spot) (held : Lookup) :
    (disk.put s held).content s = held := if_pos rfl

theorem content_put_of_ne {other : Spot} (h : other ≠ s) (held : Lookup) :
    (disk.put s held).content other = disk.content other := if_neg h

theorem isFile_withDirectories_iff :
    ((disk.withDirectories spots).content s).IsFile ↔ (disk.content s).IsFile := by
  simp only [withDirectories]
  cases hc : disk.content s with
  | missing => by_cases hs : s ∈ spots <;> simp [hs]
  | directory => simp
  | file bytes => simp

theorem withDirectories_eq_directory_iff :
    (disk.withDirectories spots).content s = .directory ↔
      disk.content s = .directory ∨ disk.content s = .missing ∧ s ∈ spots := by
  simp only [withDirectories]
  cases disk.content s <;> simp

theorem withDirectories_nil (disk : Disk) : disk.withDirectories [] = disk := by
  refine congrArg (Disk.mk disk.here) (funext fun s => ?_)
  cases disk.content s <;> simp

/-- Directories are made one by one. -/
theorem withDirectories_put (h : disk.content s = .missing) (spots : List Spot) :
    (disk.put s .directory).withDirectories spots = disk.withDirectories (s :: spots) := by
  refine congrArg (Disk.mk disk.here) (funext fun other => ?_)
  by_cases ho : other = s
  · subst ho
    simp [content_put_self, h]
  · simp [content_put_of_ne ho, ho]

/-- What stands at a spot stays there. -/
theorem withDirectories_cons_of_ne (h : disk.content s ≠ .missing) (spots : List Spot) :
    disk.withDirectories (s :: spots) = disk.withDirectories spots := by
  refine congrArg (Disk.mk disk.here) (funext fun other => ?_)
  by_cases ho : other = s
  · subst ho
    cases hc : disk.content other with
    | missing => exact absurd hc h
    | directory => rfl
    | file bytes => rfl
  · simp [ho]

variable {path text : String}

theorem content_withFile_self (disk : Disk) (path text : String) :
    (disk.withFile path text).content (spot disk.here path) = .file text.toUTF8 :=
  content_put_self _ _ _

theorem isFile_withFile_iff :
    ((disk.withFile path text).content s).IsFile ↔
      s = spot disk.here path ∨ (disk.content s).IsFile := by
  by_cases hs : s = spot disk.here path
  · subst hs
    exact iff_of_true ⟨_, content_withFile_self disk path text⟩ (.inl rfl)
  · rw [withFile, content_put_of_ne hs, isFile_withDirectories_iff]
    exact (or_iff_right hs).symm

theorem withFile_eq_directory_iff :
    (disk.withFile path text).content s = .directory ↔ s ≠ spot disk.here path ∧
      (disk.content s = .directory ∨
        disk.content s = .missing ∧ s ∈ directorySpots disk.here path) := by
  by_cases hs : s = spot disk.here path
  · subst hs
    simp [content_withFile_self]
  · rw [withFile, content_put_of_ne hs, withDirectories_eq_directory_iff]
    exact (and_iff_right hs).symm

/-- A file stays as it is when others are written. -/
theorem content_withFile_of_file {bytes : ByteArray} (h : disk.content s = .file bytes)
    (hs : s ≠ spot disk.here path) : (disk.withFile path text).content s = .file bytes := by
  rw [withFile, content_put_of_ne hs]
  simp [withDirectories, h]

end Content

/-! ### What is in the way of a file -/

theorem isNoName_eq_false_iff {name : String} : isNoName name = false ↔ '\x00' ∉ name.toList := by
  simp [isNoName]

/-- All names of a path are names exactly if there is no NUL in it. -/
theorem names_iff (path : String) :
    ((∀ name ∈ directories path, isNoName name = false) ∧ isNoName (fileName path) = false) ↔
      '\x00' ∉ path.toList := by
  rw [Text.mem_toList_iff_of_ne (by decide : '\x00' ≠ '/'), ← dropLast_concat_fileName path]
  simp only [isNoName_eq_false_iff, directories, List.mem_filter, List.mem_append,
    List.mem_singleton, not_exists, not_and]
  constructor
  · rintro ⟨hall, hlast⟩ piece (hp | rfl) hc
    · refine hall piece ⟨hp, ?_⟩ hc
      rw [Bool.not_eq_true', String.isEmpty_eq_false_iff]
      rintro rfl
      cases hc
    · exact hlast hc
  · exact fun h => ⟨fun name hn => h name (.inl hn.1), h _ (.inr rfl)⟩

/-- Nothing is in the way of a file: it has a directory, its path consists of names, all that it
leads through is or can become a directory, and no directory is or will be in its place. -/
structure Free (disk : Disk) (path : String) : Prop where
  directory : (parent path).isEmpty = false
  names : '\x00' ∉ path.toList
  passable : ∀ s ∈ directorySpots disk.here path, ¬ (disk.content s).IsFile
  noDirectory : disk.content (spot disk.here path) ≠ .directory
  offItsWay : spot disk.here path ∉ directorySpots disk.here path

/-! ### Obstacles -/

/-- What an obstacle says about the way down by some names. -/
def StandsOn (disk : Disk) (here : Place) (names : List String) : Obstacle → Prop
  | .noDirectory | .directoryAsFile => False
  | .nul => ∃ name ∈ names, isNoName name = true
  | .fileAsDirectory => ∃ s ∈ (here.trail names).getLast?, (disk.content s).IsFile
  | .fileOnTheWay => ∃ s ∈ (here.trail names).dropLast, (disk.content s).IsFile

/-- What an obstacle says about a disk and a path. -/
def Stands (disk : Disk) (path : String) : Obstacle → Prop
  | .noDirectory => (parent path).isEmpty = true
  | .nul => '\x00' ∈ path.toList
  | .fileAsDirectory => ∃ s ∈ (directorySpots disk.here path).getLast?, (disk.content s).IsFile
  | .fileOnTheWay => ∃ s ∈ (directorySpots disk.here path).dropLast, (disk.content s).IsFile
  | .directoryAsFile => disk.content (spot disk.here path) = .directory ∨
      spot disk.here path ∈ directorySpots disk.here path

section Write

variable {disk : Disk} {here : Place} {name path text : String} {names : List String}
  {obstacle : Obstacle}

/-- A file where the next directory should be is an obstacle. -/
theorem standsOn_obstacleAtFile (h : (disk.content (here.follow name).names).IsFile) :
    disk.StandsOn here (name :: names) (obstacleAtFile names) := by
  cases names with
  | nil => exact ⟨_, by simp [Place.trail], h⟩
  | cons next names =>
    rw [obstacleAtFile]
    split
    · rename_i hnext
      exact ⟨next, by simp, hnext⟩
    · exact ⟨_, by simp [Place.trail], h⟩

/-- What stands on a way stands on every way that leads to it. -/
theorem StandsOn.cons (h : disk.StandsOn (here.follow name) names obstacle) :
    disk.StandsOn here (name :: names) obstacle := by
  cases obstacle with
  | noDirectory => exact h
  | directoryAsFile => exact h
  | nul =>
    obtain ⟨other, ho, hno⟩ := h
    exact ⟨other, List.mem_cons_of_mem _ ho, hno⟩
  | fileAsDirectory =>
    obtain ⟨s, hs, hf⟩ := h
    refine ⟨s, ?_, hf⟩
    rw [Place.trail, List.getLast?_cons, Option.mem_def.1 hs]
    rfl
  | fileOnTheWay =>
    obtain ⟨s, hs, hf⟩ := h
    refine ⟨s, ?_, hf⟩
    rw [Place.trail, List.dropLast_cons_of_ne_nil (by rintro hnil; simp [hnil] at hs)]
    exact List.mem_cons_of_mem _ hs

theorem isFile_put_directory_iff {s other : Spot} (h : disk.content s = .missing) :
    ((disk.put s .directory).content other).IsFile ↔ (disk.content other).IsFile := by
  by_cases ho : other = s
  · simp [ho, content_put_self, h]
  · rw [content_put_of_ne ho]

/-- A directory that is made is no obstacle. -/
theorem StandsOn.of_put {s : Spot} (hs : disk.content s = .missing)
    (h : (disk.put s .directory).StandsOn here names obstacle) :
    disk.StandsOn here names obstacle := by
  cases obstacle with
  | noDirectory => exact h
  | directoryAsFile => exact h
  | nul => exact h
  | fileAsDirectory =>
    obtain ⟨other, ho, hf⟩ := h
    exact ⟨other, ho, (isFile_put_directory_iff hs).1 hf⟩
  | fileOnTheWay =>
    obtain ⟨other, ho, hf⟩ := h
    exact ⟨other, ho, (isFile_put_directory_iff hs).1 hf⟩

/-- **Directories are made** on the way down by some names, unless one of them is no name or a file
stands on the way; then there is the obstacle that is named. -/
theorem makeDirectories_cases (disk : Disk) (here : Place) (names : List String) :
    ((∀ name ∈ names, isNoName name = false) ∧
      (∀ s ∈ here.trail names, ¬ (disk.content s).IsFile) ∧
      disk.makeDirectories here names =
        .ok (disk.withDirectories (here.trail names), names.foldl Place.follow here)) ∨
    ∃ obstacle, disk.StandsOn here names obstacle ∧
      disk.makeDirectories here names = .error obstacle := by
  induction names generalizing disk here with
  | nil =>
    refine .inl ⟨by simp, by simp [Place.trail], ?_⟩
    rw [makeDirectories, Place.trail, withDirectories_nil, List.foldl_nil]
  | cons name names ih =>
    rw [makeDirectories, Place.trail, List.foldl_cons, List.forall_mem_cons, List.forall_mem_cons]
    cases hname : isNoName name with
    | true => exact .inr ⟨.nul, ⟨name, List.mem_cons_self, hname⟩, rfl⟩
    | false =>
      simp only [Bool.false_eq_true, if_false, true_and]
      cases hc : disk.content (here.follow name).names with
      | missing =>
        obtain ⟨hnames, hfree, hm⟩ | ⟨obstacle, hon, hm⟩ :=
          ih (disk.put (here.follow name).names .directory) (here.follow name)
        · rw [withDirectories_put hc] at hm
          exact .inl ⟨hnames, ⟨Lookup.not_isFile_missing, fun s hs hf =>
            hfree s hs ((isFile_put_directory_iff hc).2 hf)⟩, hm⟩
        · exact .inr ⟨obstacle, (hon.of_put hc).cons, hm⟩
      | directory =>
        obtain ⟨hnames, hfree, hm⟩ | ⟨obstacle, hon, hm⟩ := ih disk (here.follow name)
        · rw [← withDirectories_cons_of_ne (s := (here.follow name).names) (by simp [hc])] at hm
          exact .inl ⟨hnames, ⟨Lookup.not_isFile_directory, hfree⟩, hm⟩
        · exact .inr ⟨obstacle, hon.cons, hm⟩
      | file bytes => exact .inr ⟨_, standsOn_obstacleAtFile ⟨bytes, hc⟩, rfl⟩

/-- **A file is written** if nothing is in its way, and then it is on the disk with the directories
on the way to it. If it is not written, there is the obstacle that is named. -/
theorem write_cases (disk : Disk) (path text : String) :
    (disk.Free path ∧ disk.write path text = .ok (disk.withFile path text)) ∨
    ∃ obstacle, disk.Stands path obstacle ∧ disk.write path text = .error obstacle := by
  rw [write]
  cases hd : (parent path).isEmpty with
  | true => exact .inr ⟨.noDirectory, hd, rfl⟩
  | false =>
    simp only [Bool.false_eq_true, if_false]
    obtain ⟨hnames, hfree, hm⟩ | ⟨obstacle, hon, hm⟩ :=
      disk.makeDirectories_cases (start disk.here path) (directories path)
    · simp only [hm, writeInto, ← spot_eq_follow]
      cases hname : isNoName (fileName path) with
      | true =>
        refine .inr ⟨.nul, ?_, rfl⟩
        by_contra hnul
        exact absurd hname (by simp [((names_iff path).2 hnul).2])
      | false =>
        have hnul := (names_iff path).1 ⟨hnames, hname⟩
        simp only [Bool.false_eq_true, if_false]
        split
        · rename_i hdirectory
          rw [withDirectories_eq_directory_iff] at hdirectory
          exact .inr ⟨.directoryAsFile, hdirectory.imp_right And.right, rfl⟩
        · rename_i hdirectory
          rw [withDirectories_eq_directory_iff] at hdirectory
          obtain ⟨hplace, hmade⟩ := not_or.1 hdirectory
          refine .inl ⟨⟨hd, hnul, hfree, hplace, fun hon => ?_⟩, rfl⟩
          -- a directory is there, or is made, wherever the way leads
          cases hc : disk.content (spot disk.here path) with
          | missing => exact hmade ⟨hc, hon⟩
          | directory => exact hplace hc
          | file bytes => exact hfree _ hon ⟨bytes, hc⟩
    · refine .inr ⟨obstacle, ?_, by rw [hm]⟩
      cases obstacle with
      | noDirectory => exact hon.elim
      | directoryAsFile => exact hon.elim
      | fileAsDirectory => exact hon
      | fileOnTheWay => exact hon
      | nul =>
        obtain ⟨name, hn, hno⟩ := hon
        by_contra hnul
        exact absurd hno (by simp [((names_iff path).2 hnul).1 name hn])

/-- With an obstacle something is in the way. -/
theorem Stands.not_free (h : disk.Stands path obstacle) : ¬ disk.Free path := by
  intro hf
  cases obstacle with
  | noDirectory => exact absurd h (by simp [Stands, hf.directory])
  | nul => exact hf.names h
  | fileAsDirectory =>
    obtain ⟨s, hs, hfile⟩ := h
    exact hf.passable s (List.mem_of_getLast? hs) hfile
  | fileOnTheWay =>
    obtain ⟨s, hs, hfile⟩ := h
    exact hf.passable s (List.dropLast_subset _ hs) hfile
  | directoryAsFile => exact h.elim hf.noDirectory hf.offItsWay

end Write

/-! ### Several files -/

/-- Nothing is in the way of some files, and none of them is in the way of another. -/
structure Unhindered (disk : Disk) (paths : List String) : Prop where
  free : ∀ path ∈ paths, disk.Free path
  apart : ∀ path ∈ paths, ∀ other ∈ paths,
    spot disk.here path ∉ directorySpots disk.here other

section Several

variable {disk : Disk} {path text : String} {paths : List String}

theorem unhindered_nil (disk : Disk) : disk.Unhindered [] := ⟨by simp, by simp⟩

/-- What is in the way of a file once another one is written was there before, or it is this
other one, or the directories on the way to it. -/
theorem free_withFile_iff {other : String} (h : disk.Free path) :
    (disk.withFile path text).Free other ↔ disk.Free other ∧
      spot disk.here path ∉ directorySpots disk.here other ∧
      spot disk.here other ∉ directorySpots disk.here path := by
  constructor
  · intro ho
    have hpassable : ∀ s ∈ directorySpots disk.here other,
        s ≠ spot disk.here path ∧ ¬ (disk.content s).IsFile := fun s hs =>
      not_or.1 fun hf => ho.passable s hs (isFile_withFile_iff.2 hf)
    have hplace := ho.noDirectory
    rw [here_withFile, ne_eq, withFile_eq_directory_iff] at hplace
    refine ⟨⟨ho.directory, ho.names, fun s hs => (hpassable s hs).2, fun hc => ?_, ho.offItsWay⟩,
      fun hs => (hpassable _ hs).1 rfl, fun hs => ?_⟩
    · -- the spots of the two files may be the same, but then the first one found no directory
      refine hplace ⟨fun he => h.noDirectory (he ▸ hc), .inl hc⟩
    · have hne : spot disk.here other ≠ spot disk.here path := fun he => h.offItsWay (he ▸ hs)
      cases hc : disk.content (spot disk.here other) with
      | missing => exact hplace ⟨hne, .inr ⟨hc, hs⟩⟩
      | directory => exact hplace ⟨hne, .inl hc⟩
      | file bytes => exact h.passable _ hs ⟨bytes, hc⟩
  · rintro ⟨ho, hon, hunder⟩
    refine ⟨ho.directory, ho.names, fun s hs => ?_, ?_, ho.offItsWay⟩
    · rw [isFile_withFile_iff]
      rintro (rfl | hf)
      · exact hon hs
      · exact ho.passable s hs hf
    · rw [here_withFile, ne_eq, withFile_eq_directory_iff]
      rintro ⟨-, hc | ⟨-, hs⟩⟩
      · exact ho.noDirectory hc
      · exact hunder hs

/-- **One file at a time**: several files are unhindered exactly if nothing is in the way of the
first one, and the others are unhindered once it is written. -/
theorem unhindered_cons :
    disk.Unhindered (path :: paths) ↔
      disk.Free path ∧ (disk.withFile path text).Unhindered paths := by
  constructor
  · intro h
    have hpath := h.free path List.mem_cons_self
    refine ⟨hpath, fun other ho => ?_, fun other ho another ha => ?_⟩
    · have hm : other ∈ path :: paths := List.mem_cons_of_mem _ ho
      exact (free_withFile_iff hpath).2 ⟨h.free other hm,
        h.apart path List.mem_cons_self other hm, h.apart other hm path List.mem_cons_self⟩
    · exact h.apart other (List.mem_cons_of_mem _ ho) another (List.mem_cons_of_mem _ ha)
  · rintro ⟨hpath, hothers⟩
    have hfree : ∀ other ∈ paths, disk.Free other ∧
        spot disk.here path ∉ directorySpots disk.here other ∧
        spot disk.here other ∉ directorySpots disk.here path := fun other ho =>
      (free_withFile_iff hpath).1 (hothers.free other ho)
    refine ⟨List.forall_mem_cons.2 ⟨hpath, fun other ho => (hfree other ho).1⟩, ?_⟩
    rintro other (_ | ⟨_, ho⟩) another (_ | ⟨_, ha⟩)
    · exact hpath.offItsWay
    · exact (hfree another ha).2.1
    · exact (hfree other ho).2.2
    · exact hothers.apart other ho another ha

end Several

/-- A file that is written stays as it is, unless a later one has its place. -/
theorem content_withFiles {disk : Disk} {s : Spot} {bytes : ByteArray}
    (h : disk.content s = .file bytes) {writes : List Write}
    (hs : ∀ write ∈ writes, spot disk.here write.path ≠ s) :
    (disk.withFiles writes).content s = .file bytes := by
  induction writes generalizing disk with
  | nil => exact h
  | cons write writes ih =>
    obtain ⟨hwrite, hwrites⟩ := List.forall_mem_cons.1 hs
    exact ih (content_withFile_of_file h hwrite.symm) hwrites

theorem withFiles_cons (disk : Disk) (write : Write) (writes : List Write) :
    disk.withFiles (write :: writes) = (disk.withFile write.path write.text).withFiles writes := rfl

theorem withFiles_append (disk : Disk) (writes others : List Write) :
    disk.withFiles (writes ++ others) = (disk.withFiles writes).withFiles others :=
  List.foldl_append

theorem here_withFiles (disk : Disk) (writes : List Write) :
    (disk.withFiles writes).here = disk.here := by
  induction writes generalizing disk with
  | nil => rfl
  | cons write writes ih => exact ih (disk.withFile write.path write.text)

/-- **What a file holds in the end** is the text that was written last in its place. -/
theorem content_withFiles_append (disk : Disk) (before : List Write) (write : Write)
    {later : List Write}
    (h : ∀ other ∈ later, spot disk.here other.path ≠ spot disk.here write.path) :
    (disk.withFiles (before ++ write :: later)).content (spot disk.here write.path) =
      .file write.text.toUTF8 := by
  have hhere := here_withFiles disk before
  rw [withFiles_append, withFiles_cons, ← hhere]
  refine content_withFiles (content_withFile_self _ write.path write.text) fun other ho => ?_
  rw [here_withFile, hhere]
  exact h other ho

end Disk

namespace Program

open SoapTypes.Path

/-- What is written for a file of a catalog. -/
def toWrite (directory : String) (output : OutputFile) : Write :=
  ⟨outputPath directory output.file, output.text⟩

/-- How far the writing of some files gets on a disk: to the end if they are unhindered, and else up
to the first one with which they are not; then the fault names an obstacle in its way. -/
inductive WritesUpTo (disk : Disk) : List Write → Writing → Prop
  | all {writes : List Write} (h : disk.Unhindered (writes.map (·.path))) :
      WritesUpTo disk writes ⟨writes, .ok (disk.withFiles writes)⟩
  | upTo {front rest : List Write} {write : Write} {obstacle : Obstacle}
      (h : disk.Unhindered (front.map (·.path)))
      (hn : ¬ disk.Unhindered ((front ++ [write]).map (·.path)))
      (ho : (disk.withFiles front).Stands write.path obstacle) :
      WritesUpTo disk (front ++ write :: rest)
        ⟨front, .error (.blocked write.path obstacle)⟩

theorem WritesUpTo.cons {disk : Disk} {write : Write} {writes : List Write} {writing : Writing}
    (hf : disk.Free write.path)
    (h : WritesUpTo (disk.withFile write.path write.text) writes writing) :
    WritesUpTo disk (write :: writes) ⟨write :: writing.writes, writing.outcome⟩ := by
  cases h with
  | all h => exact .all (Disk.unhindered_cons.2 ⟨hf, h⟩)
  | @upTo front rest last obstacle h hn ho =>
    exact @upTo disk (write :: front) rest last obstacle (Disk.unhindered_cons.2 ⟨hf, h⟩)
      (fun hall => hn (Disk.unhindered_cons.1 hall).2) ho

/-- **The writing of some files** gets as far as they are unhindered. -/
theorem writesUpTo_writeBelow (disk : Disk) (directory : String) (outputs : List OutputFile) :
    WritesUpTo disk (outputs.map (toWrite directory)) (writeBelow disk directory outputs) := by
  induction outputs generalizing disk with
  | nil => exact .all disk.unhindered_nil
  | cons output outputs ih =>
    rw [List.map_cons, writeBelow.eq_def]
    obtain ⟨hf, h⟩ | ⟨obstacle, ho, h⟩ :=
      disk.write_cases (outputPath directory output.file) output.text
    · simp only [h]
      exact (ih (disk.withFile _ _)).cons hf
    · simp only [h]
      exact @WritesUpTo.upTo disk [] _ _ obstacle disk.unhindered_nil
        (fun hall => ho.not_free (hall.free _ List.mem_cons_self)) ho

/-- A disk with nothing but a working directory. -/
def bareDisk : Disk := ⟨["work"], fun s => if s ∈ [[], ["work"]] then .directory else .missing⟩

/-- The first of two files stands where the second one needs a directory. -/
example : (writeBelow bareDisk "out" [⟨"A/B", []⟩, ⟨"A/B.ts/C", []⟩]).writes.map (·.path) =
      ["out/A/B.ts"] ∧
    (writeBelow bareDisk "out" [⟨"A/B", []⟩, ⟨"A/B.ts/C", []⟩]).outcome.map Disk.here =
      .error (.blocked "out/A/B.ts/C.ts" .fileAsDirectory) := by decide +kernel

end Program

end SoapTypes
