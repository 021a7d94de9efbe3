import SoapTypes.Proofs.Plain

/-!
# Outlines of trees

What is visible of a tree in its text: the fields that are not overwritten by a later one of the
same name, leaves as they are written, and branches. An outline knows nothing of references, and
`Outline.text` writes it with any of them.

* `Outline.allLines` are the lines of the text, one field after the other, without their margin.
* `Outline.text_ofFields`: the text of a plain tree is the text of its outline.
-/

namespace SoapTypes

open Text

/-- A field as it shows in a text: a finished leaf, or a branch with its own fields. -/
inductive Outline where
  | leaf (comment : Option String) (type : String)
  | branch (array : Bool) (members : List (String × Outline))
  deriving Inhabited

namespace Outline

/-- A line that says something of a property. -/
def propertyLine (name value : String) : String := Shape.propertyName .asNeeded name ++ ": " ++ value

/-- What stands in front of a brace that opens a branch. -/
def opening (array : Bool) : String := if array then "Array<" else ""

/-- What stands behind a brace that closes a branch. -/
def closing (array : Bool) : String := if array then ">;" else ";"

/-- The lines of a branch that is written out, given the lines of its fields. -/
def branchLines (name : String) (array : Bool) : List String → List String
  | [] => [propertyLine name (opening array ++ ("\x7b\x7d" ++ closing array))]
  | line :: lines =>
    propertyLine name (opening array ++ "\x7b") ::
      ((line :: lines).map (indentStep ++ ·) ++ ["\x7d" ++ closing array])

/-- What is written for a branch that is a reference. -/
def referenceText (array : Bool) (reference : String) : String :=
  (if array then Shape.arrayOf reference else reference) ++ ";"

mutual

/-- The lines of a field. -/
def lines (references : References) (name : String) : Outline → List String
  | leaf comment type => comment.toList ++ [propertyLine name type]
  | branch array members =>
    match references name (Shape.block (allLines references members)) with
    | some reference => [propertyLine name (referenceText array reference)]
    | none => branchLines name array (allLines references members)

/-- The lines of all fields. -/
def allLines (references : References) : List (String × Outline) → List String
  | [] => []
  | (name, outline) :: members => lines references name outline ++ allLines references members

end

/-- The text of an object with the fields of an outline. -/
def text (references : References) (members : List (String × Outline)) : String :=
  Shape.block (allLines references members)

mutual

/-- The outline of a field. -/
def ofTree (known : KnownEnums) (targetNamespace : Option String) (array : Bool) :
    FieldTree → Outline
  | .leaf text =>
    leaf (Shape.leafComment targetNamespace text)
      (Shape.leafText known targetNamespace array text)
  | .branch members =>
    branch array
      (Entries.ofPairs (ofTrees known (FieldTree.targetNamespace? members) members))

/-- The outlines of the fields of an object one by one, metadata left out. -/
def ofTrees (known : KnownEnums) (targetNamespace : Option String) :
    List (String × FieldTree) → List (String × Outline)
  | [] => []
  | (key, tree) :: members =>
    if FieldTree.isMetadata key then ofTrees known targetNamespace members
    else
      (FieldTree.fieldName key, ofTree known targetNamespace (FieldTree.isArrayKey key) tree) ::
        ofTrees known targetNamespace members

end

/-- The outline of an object of fields. -/
def ofFields (known : KnownEnums) (fields : Fields) : List (String × Outline) :=
  Entries.ofPairs (ofTrees known (FieldTree.targetNamespace? fields) fields)

mutual

/-- All texts of a field are plain, and only an array can have an array mark in its name. -/
def Plain (ns name : String) : Outline → Prop
  | leaf comment type =>
    (∀ c, comment = some c → OneLine c ∧ ∃ cs, c.toList = '/' :: cs) ∧ PlainText ns type
  | branch array members =>
    (array = false → FieldTree.isArrayKey name = false) ∧ PlainMembers ns members

/-- All texts of the fields of an object are plain. -/
def PlainMembers (ns : String) : List (String × Outline) → Prop
  | [] => True
  | (name, outline) :: members =>
    PlainText ns name ∧ outline.Plain ns name ∧ PlainMembers ns members

end

/-- References that write the field name behind one namespace, and of one text for each name. -/
structure SharedIn (ns : String) (references : References) : Prop where
  eq_reference {name text reference : String} (h : references name text = some reference) :
    reference = ns ++ ".I" ++ name
  unique {name text other reference reference' : String}
    (h : references name text = some reference) (h' : references name other = some reference') :
    text = other

theorem sharedIn_none (ns : String) : SharedIn ns fun _ _ => none where
  eq_reference := by simp
  unique := by simp

section Equations

variable (references : References) (name : String)

@[simp] theorem lines_leaf (comment : Option String) (type : String) :
    lines references name (leaf comment type) = comment.toList ++ [propertyLine name type] := rfl

theorem lines_branch (array : Bool) (members : List (String × Outline)) :
    lines references name (branch array members) =
      match references name (text references members) with
      | some reference => [propertyLine name (referenceText array reference)]
      | none => branchLines name array (allLines references members) := rfl

@[simp] theorem allLines_nil : allLines references [] = [] := rfl

@[simp] theorem allLines_cons (outline : Outline) (members : List (String × Outline)) :
    allLines references ((name, outline) :: members) =
      lines references name outline ++ allLines references members := rfl

theorem allLines_eq_flatMap (members : List (String × Outline)) :
    allLines references members = members.flatMap fun entry => lines references entry.1 entry.2 := by
  induction members with
  | nil => rfl
  | cons entry members ih =>
    obtain ⟨name, outline⟩ := entry
    simp [ih]

end Equations

theorem branchLines_ne_nil (name : String) (array : Bool) (lines : List String) :
    branchLines name array lines ≠ [] := by
  cases lines <;> simp [branchLines]

theorem lines_ne_nil (references : References) (name : String) (outline : Outline) :
    lines references name outline ≠ [] := by
  cases outline with
  | leaf comment type => simp
  | branch array members =>
    rw [lines_branch]
    split
    · simp
    · exact branchLines_ne_nil _ _ _

/-! ### Plain outlines -/

section Plain

variable {ns : String}

theorem plainMembers_iff {members : List (String × Outline)} :
    PlainMembers ns members ↔
      ∀ entry ∈ members, PlainText ns entry.1 ∧ entry.2.Plain ns entry.1 := by
  induction members with
  | nil => simp [PlainMembers]
  | cons entry members ih =>
    obtain ⟨name, outline⟩ := entry
    simp [PlainMembers, ih, and_assoc]

theorem plainMembers_ofPairs {pairs : List (String × Outline)} (h : PlainMembers ns pairs) :
    PlainMembers ns (Entries.ofPairs pairs) :=
  plainMembers_iff.2 fun entry hm => plainMembers_iff.1 h entry (Entries.mem_ofPairs hm)

mutual

/-- The outline of a plain field is plain. -/
theorem plain_ofTree (hns : PlainNamespace ns) (known : KnownEnums)
    {targetNamespace : Option String}
    (ht : ∀ uri, targetNamespace = some uri → PlainText ns uri) {key : String} :
    ∀ {tree : FieldTree}, tree.Plain ns →
      (ofTree known targetNamespace (FieldTree.isArrayKey key) tree).Plain ns
        (FieldTree.fieldName key)
  | .leaf _, h =>
    ⟨fun _ hc => Shape.leafComment_spec (fun uri hu => (ht uri hu).oneLine) h.oneLine hc,
      Shape.plainText_leafText hns known targetNamespace _ h⟩
  | .branch _, h =>
    ⟨FieldTree.isArrayKey_fieldName, plainMembers_ofPairs (plain_ofTrees hns known
      (fun _ hu => FieldTree.plainText_targetNamespace h hu) h)⟩

/-- The outlines of plain fields are plain. -/
theorem plain_ofTrees (hns : PlainNamespace ns) (known : KnownEnums)
    {targetNamespace : Option String}
    (ht : ∀ uri, targetNamespace = some uri → PlainText ns uri) :
    ∀ {members : List (String × FieldTree)}, FieldTree.PlainMembers ns members →
      PlainMembers ns (ofTrees known targetNamespace members)
  | [], _ => trivial
  | (key, tree) :: members, ⟨_, hf, hm⟩ => by
    rw [ofTrees]
    split
    · exact plain_ofTrees hns known ht hm
    · rename_i hk
      obtain ⟨hkey, htree⟩ := hf (by simpa using hk)
      exact ⟨FieldTree.plainText_fieldName hkey, plain_ofTree hns known ht htree,
        plain_ofTrees hns known ht hm⟩

end

/-- The outline of a plain tree is plain. -/
theorem plain_ofFields (hns : PlainNamespace ns) (known : KnownEnums) {fields : Fields}
    (h : FieldTree.PlainMembers ns fields) : PlainMembers ns (ofFields known fields) :=
  plainMembers_ofPairs (plain_ofTrees hns known
    (fun _ hu => FieldTree.plainText_targetNamespace h hu) h)

/-! ### Lines stand alone -/

theorem oneLine_propertyLine {name value : String} (hn : OneLine name) (hv : OneLine value) :
    OneLine (propertyLine name value) :=
  ((Shape.oneLine_propertyName hn).append (by decide)).append hv

theorem exists_head_propertyLine {name : String} (h : OneLine name) (value : String) :
    ∃ c cs, (propertyLine name value).toList = c :: cs ∧
      (c = '"' ∨ isIdentifierStart c = true) := by
  obtain ⟨c, cs, hc, hh⟩ := Shape.exists_head_propertyName h
  exact ⟨c, cs ++ (": " ++ value).toList, by
    simp [propertyLine, String.toList_append, hc, List.append_assoc], hh⟩

theorem oneLine_of_mem_branchLines {name : String} (hn : OneLine name) {array : Bool}
    {lines : List String} (h : ∀ l ∈ lines, OneLine l) {line : String}
    (hm : line ∈ branchLines name array lines) : OneLine line := by
  have ho : OneLine (opening array) ∧ OneLine (closing array) := by cases array <;> decide
  cases lines with
  | nil =>
    obtain rfl : line = propertyLine name _ := by simpa [branchLines] using hm
    exact oneLine_propertyLine hn (ho.1.append (OneLine.append (by decide) ho.2))
  | cons first rest =>
    simp only [branchLines, List.mem_cons, List.mem_append, List.mem_map, List.not_mem_nil,
      or_false] at hm
    rcases hm with rfl | ⟨inner, hi, rfl⟩ | rfl
    · exact oneLine_propertyLine hn (ho.1.append (by decide))
    · exact OneLine.append (by decide) (h inner (by simpa using hi))
    · exact OneLine.append (by decide) ho.2

theorem PlainNamespace.oneLine (hns : PlainNamespace ns) : OneLine ns :=
  fun hm => absurd (hns.parts _ hm) (by decide)

theorem oneLine_reference (hns : PlainNamespace ns) {name : String} (hn : OneLine name) :
    OneLine (ns ++ ".I" ++ name) := ((PlainNamespace.oneLine hns).append (by decide)).append hn

theorem oneLine_referenceText {reference : String} (h : OneLine reference) (array : Bool) :
    OneLine (referenceText array reference) := by
  unfold referenceText
  refine OneLine.append ?_ (by decide)
  split
  · exact Shape.oneLine_arrayOf h
  · exact h

mutual

/-- Every line of a plain field is one line. -/
theorem oneLine_of_mem_lines (hns : PlainNamespace ns) {references : References}
    (hr : SharedIn ns references) {name : String} (hn : PlainText ns name) :
    ∀ {outline : Outline}, outline.Plain ns name →
      ∀ {line : String}, line ∈ lines references name outline → OneLine line
  | leaf comment type, ⟨hc, ht⟩, line, hm => by
    rcases List.mem_append.1 hm with hm | hm
    · exact (hc line (by simpa using hm)).1
    · rw [List.mem_singleton.1 hm]
      exact oneLine_propertyLine hn.oneLine ht.oneLine
  | branch array members, ⟨_, hp⟩, line, hm => by
    rw [lines_branch] at hm
    split at hm
    · rename_i reference he
      rw [List.mem_singleton.1 hm]
      refine oneLine_propertyLine hn.oneLine (oneLine_referenceText ?_ array)
      rw [hr.eq_reference he]
      exact oneLine_reference hns hn.oneLine
    · exact oneLine_of_mem_branchLines hn.oneLine
        (fun l hl => oneLine_of_mem_allLines hns hr hp hl) hm

/-- Every line of plain fields is one line. -/
theorem oneLine_of_mem_allLines (hns : PlainNamespace ns) {references : References}
    (hr : SharedIn ns references) :
    ∀ {members : List (String × Outline)}, PlainMembers ns members →
      ∀ {line : String}, line ∈ allLines references members → OneLine line
  | [], _, line, hm => by simp at hm
  | (name, outline) :: members, ⟨hn, ho, hp⟩, line, hm => by
    rcases List.mem_append.1 hm with hm | hm
    · exact oneLine_of_mem_lines hns hr hn ho hm
    · exact oneLine_of_mem_allLines hns hr hp hm

end

/-! ### The text of a tree and of its outline -/

/-- What separates the lines of an object type. -/
def lineSeparator : String := "\n" ++ indentStep

/-- A member and an outline that are written alike. -/
def WrittenAlike (references : References) (name : String) (member : Member) (outline : Outline) :
    Prop :=
  joinWith lineSeparator (Shape.memberLines .asNeeded name member) =
    joinWith lineSeparator (lines references name outline)

theorem memberLines_ne_nil {quoting : Quoting} (name : String) (member : Member) :
    Shape.memberLines quoting name member ≠ [] := by
  cases member with
  | leaf comment type =>
    simp only [Shape.memberLines]
    split
    · simp
    · split <;> simp
  | text type => simp
  | nested members => simp

theorem shapeLines_eq_flatMap {quoting : Quoting} (shape : Shape) :
    Shape.lines quoting shape =
      shape.flatMap fun entry => Shape.memberLines quoting entry.1 entry.2 := by
  induction shape with
  | nil => rfl
  | cons entry shape ih =>
    obtain ⟨name, member⟩ := entry
    simp [ih]

/-- Shapes and outlines that are written alike field by field have the same joined lines. -/
theorem joinWith_lines_eq {references : References} {shape : Shape}
    {members : List (String × Outline)}
    (h : Entries.Related (WrittenAlike references) shape members) :
    joinWith lineSeparator (Shape.lines .asNeeded shape) =
      joinWith lineSeparator (allLines references members) := by
  rw [shapeLines_eq_flatMap, allLines_eq_flatMap,
    joinWith_flatMap _ _ _ fun x _ => memberLines_ne_nil x.1 x.2,
    joinWith_flatMap _ _ _ fun x _ => lines_ne_nil references x.1 x.2]
  congr 1
  induction h with
  | nil => rfl
  | @cons x y _ _ hxy _ ih =>
    obtain ⟨k, x⟩ := x
    obtain ⟨k', y⟩ := y
    obtain ⟨rfl, hw⟩ := hxy
    rw [List.map_cons, List.map_cons, ih]
    exact congrArg (· :: _) hw

/-- A shape and an outline that are written alike field by field have the same text. -/
theorem render_eq_text {references : References} {shape : Shape}
    {members : List (String × Outline)}
    (h : Entries.Related (WrittenAlike references) shape members) :
    Shape.render .asNeeded shape = text references members := by
  have hj := joinWith_lines_eq h
  unfold Shape.render text
  cases h with
  | nil => rfl
  | @cons x y shape members hxy _ =>
    obtain ⟨a, as, ha⟩ := List.exists_cons_of_ne_nil
      (show Shape.lines .asNeeded (x :: shape) ≠ [] by
        simp [shapeLines_eq_flatMap, memberLines_ne_nil])
    obtain ⟨b, bs, hb⟩ := List.exists_cons_of_ne_nil
      (show allLines references (y :: members) ≠ [] by
        simp [allLines_eq_flatMap, lines_ne_nil])
    rw [ha, hb] at hj ⊢
    rw [Shape.block, Shape.block]
    exact congrArg (fun s => "\x7b\n" ++ indentStep ++ s ++ "\n\x7d") hj

theorem joinWith_branchLines (separator name : String) (array : Bool) (lines : List String) :
    joinWith separator (branchLines name array lines) =
      propertyLine name (opening array ++
        (joinWith separator (Shape.blockLines lines) ++ closing array)) := by
  cases lines with
  | nil => rfl
  | cons line lines =>
    have hne : (line :: lines).map (indentStep ++ ·) ≠ [] := by simp
    rw [Shape.blockLines, branchLines, joinWith_cons _ _ (by simp), joinWith_cons _ _ (by simp),
      joinWith_append _ hne (by simp), joinWith_append _ hne (by simp)]
    simp [propertyLine, String.append_assoc]

/-- The lines of a branch that is written out make up its indented text. -/
theorem joinWith_branchLines_indent (name : String) (array : Bool) {lines : List String}
    (h : ∀ l ∈ lines, OneLine l) :
    joinWith lineSeparator (branchLines name array lines) =
      propertyLine name (opening array ++ (indent (Shape.block lines) ++ closing array)) := by
  obtain ⟨first, rest, hb⟩ := List.exists_cons_of_ne_nil (Shape.blockLines_ne_nil lines)
  rw [joinWith_branchLines, Shape.block_eq_ofLines, hb, indent_joinWith_break
    fun l hm => Shape.oneLine_of_mem_blockLines h (hb ▸ hm)]
  rfl

/-- The lines of a property whose value is a block. -/
theorem linesOf_propertyLine_block {name : String} (hn : OneLine name) (array : Bool)
    {lines : List String} (h : ∀ l ∈ lines, OneLine l) :
    linesOf (propertyLine name (opening array ++ (Shape.block lines ++ closing array))) =
      branchLines name array lines := by
  rw [Shape.block_eq_ofLines, ofLines, ← joinWith_branchLines]
  exact linesOf_ofLines (branchLines_ne_nil name array lines)
    fun l hm => oneLine_of_mem_branchLines hn h hm

theorem arrayOf_block (lines : List String) :
    Shape.arrayOf (indent (Shape.block lines)) = "Array<" ++ indent (Shape.block lines) ++ ">" := by
  have hc : ∃ c cs, (indent (Shape.block lines)).toList = '\x7b' :: c :: cs := by
    rw [toList_indent]
    cases lines with
    | nil => exact ⟨'\x7d', [], by decide⟩
    | cons line lines =>
      simp only [Shape.block, String.toList_append, List.flatMap_append, List.append_assoc]
      exact ⟨'\n', _, rfl⟩
  obtain ⟨c, cs, hc⟩ := hc
  have hp : isPlainElement (indent (Shape.block lines)) = false := by
    have hl : isLetter '\x7b' = false ∧ isAsciiDigit '\x7b' = false := by decide
    have hm : '\x7b' ∈ withoutFinalBreak ('\x7b' :: c :: cs) := by
      unfold withoutFinalBreak
      split <;> simp
    rw [isPlainElement, hc]
    split
    · rfl
    · rw [List.all_eq_false]
      exact ⟨'\x7b', hm, by simp [hl]⟩
  rw [Shape.arrayOf, hp]
  rfl

/-- A branch is written like its outline, once its fields are. -/
theorem writtenAlike_branch (hns : PlainNamespace ns) {references : References}
    (hr : SharedIn ns references) {name : String} (hn : PlainText ns name) (array : Bool)
    {shape : Shape} {members : List (String × Outline)} (hp : PlainMembers ns members)
    (h : Shape.render .asNeeded shape = text references members) :
    WrittenAlike references name
      (Shape.branchMember references array name shape (Shape.render .asNeeded shape))
      (branch array members) := by
  have hl : ∀ l ∈ allLines references members, OneLine l :=
    fun l hm => oneLine_of_mem_allLines hns hr hp hm
  unfold WrittenAlike
  rw [lines_branch, h]
  cases he : references name (text references members) with
  | some reference =>
    have hi : indent reference = reference := by
      refine indent_of_single_line ?_
      rw [hr.eq_reference he]
      exact oneLine_reference hns hn.oneLine
    cases array <;> simp [Shape.branchMember, he, hi, referenceText, propertyLine]
  | none =>
    -- without a reference both are the indented text of the fields, in a wrapper if it is an array
    rw [joinWith_branchLines_indent name array hl]
    cases array with
    | false =>
      simp only [Shape.branchMember, he, Shape.memberLines_nested, h]
      simp [text, propertyLine, opening, closing, String.append_assoc]
    | true =>
      simp only [Shape.branchMember, he, Option.getD_none, Shape.memberLines_text]
      simp [text, arrayOf_block, propertyLine, opening, closing, String.append_assoc]

theorem writtenAlike_leaf (references : References) (known : KnownEnums)
    (targetNamespace : Option String) (array : Bool) (name label : String) :
    WrittenAlike references name (Shape.resolveLeaf known targetNamespace array label)
      (ofTree known targetNamespace array (.leaf label)) := by
  unfold WrittenAlike
  rw [Shape.resolveLeaf_eq, ofTree, lines_leaf]
  simp only [Shape.memberLines, Shape.leafText]
  split
  · rename_i hc
    rw [hc]
    rfl
  · rename_i comment hc
    have he : comment.isEmpty = false := by
      obtain ⟨data, -, rfl⟩ := Option.map_eq_some_iff.1 hc
      simp
    rw [hc, he]
    rfl

mutual

theorem writtenAlike_ofTree (hns : PlainNamespace ns) {references : References}
    (hr : SharedIn ns references) (known : KnownEnums) (targetNamespace : Option String)
    {name : String} (hn : PlainText ns name) (array : Bool) :
    ∀ {tree : FieldTree}, tree.Plain ns →
      WrittenAlike references name
        (Shape.buildTree known references targetNamespace array name tree).result
        (ofTree known targetNamespace array tree)
  | .leaf label, _ => writtenAlike_leaf references known targetNamespace array name label
  | .branch _, h =>
    writtenAlike_branch hns hr hn array (plain_ofFields hns known h)
      (render_eq_text (Entries.related_ofPairs (related_ofTrees hns hr known _ h)))

theorem related_ofTrees (hns : PlainNamespace ns) {references : References}
    (hr : SharedIn ns references) (known : KnownEnums) (targetNamespace : Option String) :
    ∀ {members : List (String × FieldTree)}, FieldTree.PlainMembers ns members →
      Entries.Related (WrittenAlike references)
        (Shape.buildTrees known references targetNamespace members).result
        (ofTrees known targetNamespace members)
  | [], _ => .nil
  | (key, tree) :: members, ⟨_, hf, hm⟩ => by
    by_cases hk : FieldTree.isMetadata key = true
    · rw [Shape.buildTrees_cons_metadata known references targetNamespace hk, ofTrees, if_pos hk]
      exact related_ofTrees hns hr known targetNamespace hm
    · obtain ⟨hkey, htree⟩ := hf (by simpa using hk)
      rw [Shape.buildTrees_cons_field known references targetNamespace (by simpa using hk), ofTrees,
        if_neg hk]
      exact .cons ⟨rfl, writtenAlike_ofTree hns hr known targetNamespace
        (FieldTree.plainText_fieldName hkey) _ htree⟩ (related_ofTrees hns hr known _ hm)

end

/-- **The text of a plain tree is the text of its outline.** -/
theorem text_ofFields (hns : PlainNamespace ns) {references : References}
    (hr : SharedIn ns references) (known : KnownEnums) {fields : Fields}
    (h : FieldTree.PlainMembers ns fields) :
    Shape.render .asNeeded (Shape.ofFields known references fields) =
      text references (ofFields known fields) :=
  render_eq_text (Entries.related_ofPairs (related_ofTrees hns hr known _ h))

end Plain

end Outline

end SoapTypes
