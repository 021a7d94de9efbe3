import SoapTypes.Proofs.Expansion

/-!
# Unfolding outlines

Expansion works line by line, so it can be followed field by field: a branch whose fields unfold
unfolds, and a reference unfolds once the body in its place does.

* `Outline.Backed`: every name that may be referenced has a body, the text of the branch with
  references of its own.
* `Outline.unfolds_text`: a plain outline with backed references unfolds to its text without
  references.
-/

namespace SoapTypes

open Text Expansion

namespace Expansion

/-- Lines that turn into others by expansion, declared names only on the way. -/
structure UnfoldLines (ns : String) (bodies : Bodies) (lines result : List String) : Prop where
  oneLine : ∀ line ∈ lines, OneLine line
  declared (k : Nat) :
    ∀ name ∈ names ns ((expandLines ns bodies)^[k] lines), (bodies name).isSome = true
  ends : ∃ k, (expandLines ns bodies)^[k] lines = result
  finished : names ns result = []

section

variable {ns : String} {bodies : Bodies}

theorem oneLine_of_mem_iterate {lines : List String} (h : ∀ line ∈ lines, OneLine line) :
    ∀ k, ∀ line ∈ (expandLines ns bodies)^[k] lines, OneLine line
  | 0 => h
  | k + 1 => fun line hm => by
    rw [Function.iterate_succ_apply'] at hm
    exact oneLine_of_mem_expandLines hm

theorem iterate_append (lines others : List String) (k : Nat) :
    (expandLines ns bodies)^[k] (lines ++ others) =
      (expandLines ns bodies)^[k] lines ++ (expandLines ns bodies)^[k] others := by
  induction k with
  | zero => rfl
  | succ k ih => simp only [Function.iterate_succ_apply', ih, expandLines_append]

theorem iterate_map_indent {lines : List String} (h : ∀ line ∈ lines, OneLine line) (k : Nat) :
    (expandLines ns bodies)^[k] (lines.map (indentStep ++ ·)) =
      ((expandLines ns bodies)^[k] lines).map (indentStep ++ ·) := by
  induction k with
  | zero => rfl
  | succ k ih =>
    rw [Function.iterate_succ_apply', Function.iterate_succ_apply', ih,
      expandLines_map_indent (oneLine_of_mem_iterate h k)]

theorem iterate_of_names_eq_nil {lines : List String} (h : ∀ line ∈ lines, OneLine line)
    (hn : names ns lines = []) (k : Nat) : (expandLines ns bodies)^[k] lines = lines :=
  Function.iterate_fixed (expandLines_of_names_eq_nil h hn) k

namespace UnfoldLines

variable {lines result others result' : List String}

theorem refl (h : ∀ line ∈ lines, OneLine line) (hn : names ns lines = []) :
    UnfoldLines ns bodies lines lines where
  oneLine := h
  declared k := by simp [iterate_of_names_eq_nil h hn k, hn]
  ends := ⟨0, rfl⟩
  finished := hn

/-- Lines that have come to an end stay as they are. -/
theorem exists_forall_ge (h : UnfoldLines ns bodies lines result) :
    ∃ k, ∀ j, k ≤ j → (expandLines ns bodies)^[j] lines = result := by
  obtain ⟨k, hk⟩ := h.ends
  refine ⟨k, fun j hj => ?_⟩
  -- the first `k` replacements lead to the result, and the others find nothing to replace
  obtain ⟨i, rfl⟩ := Nat.exists_eq_add_of_le' hj
  rw [Function.iterate_add_apply, hk]
  exact iterate_of_names_eq_nil (hk ▸ oneLine_of_mem_iterate h.oneLine k) h.finished i

theorem append (h : UnfoldLines ns bodies lines result)
    (h' : UnfoldLines ns bodies others result') :
    UnfoldLines ns bodies (lines ++ others) (result ++ result') where
  oneLine := by
    intro line hm
    exact (List.mem_append.1 hm).elim (h.oneLine line) (h'.oneLine line)
  declared k := by
    intro name hm
    rw [iterate_append, names_append, List.mem_append] at hm
    exact hm.elim (h.declared k name) (h'.declared k name)
  ends := by
    obtain ⟨k, hk⟩ := h.exists_forall_ge
    obtain ⟨k', hk'⟩ := h'.exists_forall_ge
    exact ⟨max k k', by rw [iterate_append, hk _ (le_max_left _ _), hk' _ (le_max_right _ _)]⟩
  finished := by rw [names_append, h.finished, h'.finished, List.append_nil]

theorem map_indent (h : UnfoldLines ns bodies lines result) :
    UnfoldLines ns bodies (lines.map (indentStep ++ ·)) (result.map (indentStep ++ ·)) where
  oneLine := by
    intro line hm
    obtain ⟨inner, hi, rfl⟩ := List.mem_map.1 hm
    exact OneLine.append (by decide) (h.oneLine inner hi)
  declared k := by
    rw [iterate_map_indent h.oneLine, names_map_indent]
    exact h.declared k
  ends := by
    obtain ⟨k, hk⟩ := h.ends
    exact ⟨k, by rw [iterate_map_indent h.oneLine, hk]⟩
  finished := by rw [names_map_indent, h.finished]

/-- Lines unfold if they are declared and unfold after one replacement. -/
theorem step (ho : ∀ line ∈ lines, OneLine line)
    (hd : ∀ name ∈ names ns lines, (bodies name).isSome = true)
    (h : UnfoldLines ns bodies (expandLines ns bodies lines) result) :
    UnfoldLines ns bodies lines result where
  oneLine := ho
  declared k := by
    cases k with
    | zero => exact hd
    | succ k => exact h.declared k
  ends := h.ends.imp' (· + 1) fun k hk => hk
  finished := h.finished

/-- Lines and what they turn into are absent together. -/
theorem eq_nil_iff (h : UnfoldLines ns bodies lines result) : lines = [] ↔ result = [] := by
  have hne : ∀ k, (expandLines ns bodies)^[k] lines = [] ↔ lines = [] := by
    intro k
    induction k with
    | zero => rfl
    | succ k ih =>
      rw [Function.iterate_succ_apply', ← ih, expandLines, List.flatMap_eq_nil_iff]
      constructor
      · intro hall
        rw [List.eq_nil_iff_forall_not_mem]
        exact fun line hm => linesOf_ne_nil _ (hall line hm)
      · intro hnil
        simp [hnil]
  obtain ⟨k, rfl⟩ := h.ends
  exact (hne k).symm

/-- A single line without a reference. -/
theorem single {line : String} (ho : OneLine line) (hr : readLine ns line = none) :
    UnfoldLines ns bodies [line] [line] :=
  refl (by simpa using ho) (by simp [names, hr])

end UnfoldLines

/-! ### Blocks -/

/-- A line that opens or closes a brace is no reference. -/
theorem readLine_brace {ns line : String}
    (h : ∃ cs, line.toList = '\x7b' :: cs ∨ line.toList = '\x7d' :: cs) :
    readLine ns line = none := by
  obtain ⟨cs, hl | hl⟩ := h
  · exact readLine_eq_none_of_head hl (by decide) (by decide) (by decide) (by decide)
  · exact readLine_eq_none_of_head hl (by decide) (by decide) (by decide) (by decide)

/-- The lines of an object type unfold if its fields do. -/
theorem UnfoldLines.blockLines {lines result : List String}
    (h : UnfoldLines ns bodies lines result) :
    UnfoldLines ns bodies (Shape.blockLines lines) (Shape.blockLines result) := by
  have hopen : UnfoldLines ns bodies ["\x7b"] ["\x7b"] :=
    .single (by decide) (readLine_brace ⟨[], .inl rfl⟩)
  have hclose : UnfoldLines ns bodies ["\x7d"] ["\x7d"] :=
    .single (by decide) (readLine_brace ⟨[], .inr rfl⟩)
  have hempty : UnfoldLines ns bodies ["\x7b\x7d"] ["\x7b\x7d"] :=
    .single (by decide) (readLine_brace ⟨['\x7d'], .inl rfl⟩)
  have hm := h.eq_nil_iff
  cases lines with
  | nil =>
    rw [hm.1 rfl]
    exact hempty
  | cons line lines =>
    cases result with
    | nil => exact absurd (hm.2 rfl) (by simp)
    | cons line' result => exact hopen.append (h.map_indent.append hclose)

/-- An object type unfolds if its fields do. -/
theorem UnfoldLines.unfolds_block {lines result : List String}
    (h : UnfoldLines ns bodies lines result) :
    Unfolds ns bodies (Shape.block lines) (Shape.block result) := by
  have hb := h.blockLines
  have hl : ∀ k, linesOf ((expand ns bodies)^[k] (Shape.block lines)) =
      (expandLines ns bodies)^[k] (Shape.blockLines lines) := by
    intro k
    rw [linesOf_iterate_expand, Shape.linesOf_block h.oneLine]
  constructor
  · intro k
    rw [references, hl]
    exact hb.declared k
  · obtain ⟨k, hk⟩ := hb.ends
    have he : (expand ns bodies)^[k] (Shape.block lines) = Shape.block result := by
      rw [← ofLines_linesOf ((expand ns bodies)^[k] (Shape.block lines)), hl, hk,
        Shape.block_eq_ofLines]
    refine ⟨k, he, ?_⟩
    rw [references, ← he, hl, hk]
    exact hb.finished

/-- A header of a branch has no reference mark. -/
theorem noMark_header {ns : String} {header : String} (h : '.' ∉ header.toList) :
    ¬ referenceMark ns <:+: header.toList :=
  fun hm => h (hm.mem (by simp [referenceMark]))

/-- A branch that is written out unfolds if its fields do. -/
theorem UnfoldLines.branchLines {name : String} (hn : OneLine name) (array : Bool)
    {lines result : List String} (h : UnfoldLines ns bodies lines result) :
    UnfoldLines ns bodies (Outline.branchLines name array lines)
      (Outline.branchLines name array result) := by
  have hhead : ∀ value, OneLine value → '.' ∉ value.toList →
      UnfoldLines ns bodies [Outline.propertyLine name value] [Outline.propertyLine name value] :=
    fun value ho hd =>
      .single (Outline.oneLine_propertyLine hn ho) (readLine_eq_none hn (noMark_header hd))
  have hclose : UnfoldLines ns bodies ["\x7d" ++ Outline.closing array]
      ["\x7d" ++ Outline.closing array] := by
    refine .single (by cases array <;> decide) ?_
    exact readLine_brace ⟨(Outline.closing array).toList, .inr (by simp [String.toList_append])⟩
  have hm := h.eq_nil_iff
  cases lines with
  | nil =>
    rw [hm.1 rfl]
    exact hhead _ (by cases array <;> decide) (by cases array <;> decide)
  | cons line lines =>
    cases result with
    | nil => exact absurd (hm.2 rfl) (by simp)
    | cons line' result =>
      exact (hhead _ (by cases array <;> decide) (by cases array <;> decide)).append
        (h.map_indent.append hclose)

/-- A reference unfolds if the branch that is declared for it does. -/
theorem UnfoldLines.reference (hns : PlainNamespace ns) {name : String} (hn : OneLine name)
    {array : Bool} (ha : array = false → FieldTree.isArrayKey name = false)
    {lines result : List String} (hb : bodies name = some (Shape.block lines))
    (h : UnfoldLines ns bodies lines result) :
    UnfoldLines ns bodies
      [Outline.propertyLine name (Outline.referenceText array (ns ++ ".I" ++ name))]
      (Outline.branchLines name array result) := by
  have hr := readLine_reference hns hn ha
  refine .step ?_ ?_ ?_
  · simpa using Outline.oneLine_propertyLine hn
      (Outline.oneLine_referenceText (Outline.oneLine_reference hns hn) array)
  · simp [names, hr, hb]
  · have hx : expandLine ns bodies
        (Outline.propertyLine name (Outline.referenceText array (ns ++ ".I" ++ name))) =
          Outline.propertyLine name
            (Outline.opening array ++ (Shape.block lines ++ Outline.closing array)) := by
      simp only [expandLine, hr, hb]
      simp [ReferenceLine.writtenOut, withMargin_empty, Outline.propertyLine]
    have he : expandLines ns bodies
        [Outline.propertyLine name (Outline.referenceText array (ns ++ ".I" ++ name))] =
          Outline.branchLines name array lines := by
      rw [← Outline.linesOf_propertyLine_block hn array h.oneLine, ← hx]
      simp [expandLines]
    rw [he]
    exact h.branchLines hn array

end

end Expansion

namespace Outline

mutual

/-- Every name of a field that may be referenced has a body: the text of its branch, with references
of its own. -/
def Backed (shared : String → Prop) (bodies : Bodies) (inner : References) (name : String) :
    Outline → Prop
  | leaf _ _ => True
  | branch _ members =>
    (shared name → bodies name = some (text inner members)) ∧
      BackedMembers shared bodies inner members

/-- Every name of some fields that may be referenced has a body. -/
def BackedMembers (shared : String → Prop) (bodies : Bodies) (inner : References) :
    List (String × Outline) → Prop
  | [] => True
  | (name, outline) :: members =>
    outline.Backed shared bodies inner name ∧ BackedMembers shared bodies inner members

end

theorem backedMembers_iff {shared : String → Prop} {bodies : Bodies} {inner : References}
    {members : List (String × Outline)} :
    BackedMembers shared bodies inner members ↔
      ∀ entry ∈ members, entry.2.Backed shared bodies inner entry.1 := by
  induction members with
  | nil => simp [BackedMembers]
  | cons entry members ih =>
    obtain ⟨name, outline⟩ := entry
    simp [BackedMembers, ih]

/-- References of one namespace, to names from a given set only. -/
structure SharedOf (ns : String) (shared : String → Prop) (references : References) : Prop
    extends SharedIn ns references where
  shared_of_eq_some {name text reference : String} (h : references name text = some reference) :
    shared name

section Unfold

variable {ns : String} {shared : String → Prop} {bodies : Bodies} {inner : References}

mutual

/-- A plain field unfolds, whatever is referenced in it. -/
theorem unfold_lines (hns : PlainNamespace ns) (hi : SharedOf ns shared inner) {name : String}
    (hn : PlainText ns name) :
    ∀ {outline : Outline}, outline.Plain ns name → outline.Backed shared bodies inner name →
      ∀ {references : References}, SharedOf ns shared references →
        UnfoldLines ns bodies (lines references name outline)
          (lines (fun _ _ => none) name outline)
  | leaf comment type, ⟨hc, ht⟩, _, references, _ => by
    have hline : UnfoldLines ns bodies [propertyLine name type] [propertyLine name type] :=
      .single (oneLine_propertyLine hn.oneLine ht.oneLine) (readLine_eq_none hn.oneLine ht.noMark)
    cases comment with
    | none => exact hline
    | some comment =>
      obtain ⟨ho, cs, hcs⟩ := hc comment rfl
      have hr : readLine ns comment = none :=
        readLine_eq_none_of_head hcs (by decide) (by decide) (by decide) (by decide)
      exact (UnfoldLines.single ho hr).append hline
  | branch array members, ⟨ha, hp⟩, ⟨hb, hm⟩, references, hr => by
    rw [lines_branch, lines_branch]
    cases he : references name (text references members) with
    | none =>
      exact (unfold_allLines hns hi hp hm hr).branchLines hn.oneLine array
    | some reference =>
      -- the body that comes in its place has references again, those of the pass it stems from
      rw [hr.eq_reference he]
      exact .reference hns hn.oneLine ha (hb (hr.shared_of_eq_some he))
        (unfold_allLines hns hi hp hm hi)

theorem unfold_allLines (hns : PlainNamespace ns) (hi : SharedOf ns shared inner) :
    ∀ {members : List (String × Outline)}, PlainMembers ns members →
      BackedMembers shared bodies inner members →
      ∀ {references : References}, SharedOf ns shared references →
        UnfoldLines ns bodies (allLines references members) (allLines (fun _ _ => none) members)
  | [], _, _, _, _ => .refl (by simp) rfl
  | (_, _) :: _, ⟨hn, ho, hp⟩, ⟨hb, hm⟩, _, hr =>
    (unfold_lines hns hi hn ho hb hr).append (unfold_allLines hns hi hp hm hr)

end

/-- **A plain outline with backed references unfolds to its text without references.** -/
theorem unfolds_text (hns : PlainNamespace ns) (hi : SharedOf ns shared inner)
    {members : List (String × Outline)} (hp : PlainMembers ns members)
    (hb : BackedMembers shared bodies inner members) {references : References}
    (hr : SharedOf ns shared references) :
    Unfolds ns bodies (text references members) (text (fun _ _ => none) members) :=
  (unfold_allLines hns hi hp hb hr).unfolds_block

end Unfold

end Outline

end SoapTypes
