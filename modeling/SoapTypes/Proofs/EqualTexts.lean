import SoapTypes.Proofs.Outline

/-!
# Equal texts

The text of plain fields determines their outline, with any references that belong to one
namespace. The first line of a field tells its name and its kind: a leaf holds neither a brace nor
a reference mark, a reference holds a reference mark, and a branch that is written out holds a
brace. The lines behind it are indented as far as the branch goes.

* `Outline.text_injective` says this for outlines.
* `Outline.text_eq_iff`: texts of plain fields are equal with some references exactly if they are
  equal without any.
* `Outline.render_eq_iff_inline` says the same of the texts of trees.
-/

namespace SoapTypes.Outline

open Text

/-! ### First lines -/

theorem propertyLine_injective {name name' value value' : String} (hn : OneLine name)
    (hn' : OneLine name') (h : propertyLine name value = propertyLine name' value') :
    name = name' ∧ value = value' := by
  have hs := congrArg Shape.splitProperty h
  unfold propertyLine at hs
  rw [Shape.splitProperty_propertyName hn, Shape.splitProperty_propertyName hn', Option.some.injEq,
    Prod.mk.injEq] at hs
  exact ⟨Shape.propertyName_injective hs.1, hs.2⟩

/-- A comment is no line that says something of a property. -/
theorem propertyLine_ne_comment {name : String} (h : OneLine name) (value : String)
    {comment : String} (hc : ∃ cs, comment.toList = '/' :: cs) :
    propertyLine name value ≠ comment := by
  rintro rfl
  obtain ⟨c, cs, he, hh⟩ := exists_head_propertyLine h value
  obtain ⟨ds, hd⟩ := hc
  rw [he, List.cons.injEq] at hd
  obtain ⟨rfl, -⟩ := hd
  exact absurd hh (by decide)

/-! ### Branches that are written out -/

/-- Indented lines end at a closing brace. -/
theorem indented_append_injective {lines lines' rest rest' : List String} {close close' : String}
    (h : lines.map (indentStep ++ ·) ++ ("\x7d" ++ close) :: rest =
      lines'.map (indentStep ++ ·) ++ ("\x7d" ++ close') :: rest') :
    lines = lines' ∧ rest = rest' := by
  have hne : ∀ line close : String, indentStep ++ line ≠ "\x7d" ++ close := by
    intro line close he
    have hc := congrArg String.toList he
    simp [String.toList_append, indentStep] at hc
  induction lines generalizing lines' with
  | nil =>
    cases lines' with
    | nil => exact ⟨rfl, (List.cons.inj h).2⟩
    | cons line' lines' => exact absurd (List.cons.inj h).1.symm (hne line' close)
  | cons line lines ih =>
    cases lines' with
    | nil => exact absurd (List.cons.inj h).1 (hne line close')
    | cons line' lines' =>
      obtain ⟨hl, ht⟩ := List.cons.inj h
      obtain ⟨rfl, hr⟩ := ih ht
      have hc := congrArg String.toList hl
      rw [String.toList_append, String.toList_append, List.append_cancel_left_eq,
        String.toList_inj] at hc
      exact ⟨by rw [hc], hr⟩

/-- What stands behind the name of a branch without fields. -/
theorem emptyHeader_injective {array array' : Bool}
    (h : opening array ++ ("\x7b\x7d" ++ closing array) =
      opening array' ++ ("\x7b\x7d" ++ closing array')) : array = array' := by
  cases array <;> cases array' <;> first | rfl | exact absurd h (by decide)

theorem header_injective {array array' : Bool}
    (h : opening array ++ "\x7b" = opening array' ++ "\x7b") : array = array' := by
  cases array <;> cases array' <;> first | rfl | exact absurd h (by decide)

theorem emptyHeader_ne_header (array array' : Bool) :
    opening array ++ ("\x7b\x7d" ++ closing array) ≠ opening array' ++ "\x7b" := by
  cases array <;> cases array' <;> decide

/-- A branch that is written out begins with a line that holds a brace. -/
theorem exists_branchLines (name : String) (array : Bool) (lines : List String) :
    ∃ value rest, branchLines name array lines = propertyLine name value :: rest ∧
      '\x7b' ∈ value.toList := by
  cases lines with
  | nil => exact ⟨_, _, rfl, by simp [String.toList_append]⟩
  | cons line lines => exact ⟨_, _, rfl, by simp [String.toList_append]⟩

/-- The lines of a branch that is written out tell where it ends, and what it holds. -/
theorem branchLines_append_injective {name name' : String} (hn : OneLine name)
    (hn' : OneLine name') {array array' : Bool} {lines lines' rest rest' : List String}
    (h : branchLines name array lines ++ rest = branchLines name' array' lines' ++ rest') :
    (name = name' ∧ array = array') ∧ lines = lines' ∧ rest = rest' := by
  cases lines with
  | nil =>
    cases lines' with
    | nil =>
      obtain ⟨hf, hr⟩ := List.cons.inj h
      obtain ⟨rfl, hv⟩ := propertyLine_injective hn hn' hf
      exact ⟨⟨rfl, emptyHeader_injective hv⟩, rfl, hr⟩
    | cons line' lines' =>
      exact absurd (propertyLine_injective hn hn' (List.cons.inj h).1).2
        (emptyHeader_ne_header array array')
  | cons line lines =>
    cases lines' with
    | nil =>
      exact absurd (propertyLine_injective hn hn' (List.cons.inj h).1).2.symm
        (emptyHeader_ne_header array' array)
    | cons line' lines' =>
      obtain ⟨hf, hr⟩ := List.cons.inj h
      obtain ⟨rfl, hv⟩ := propertyLine_injective hn hn' hf
      have hr' : (line :: lines).map (indentStep ++ ·) ++ ("\x7d" ++ closing array) :: rest =
          (line' :: lines').map (indentStep ++ ·) ++ ("\x7d" ++ closing array') :: rest' := by
        simpa using hr
      exact ⟨⟨rfl, header_injective hv⟩, indented_append_injective hr'⟩

/-! ### References -/

/-- A reference is written with something before and after it, and never a brace. -/
theorem exists_referenceText (array : Bool) (reference : String) :
    ∃ front behind, (referenceText array reference).toList = front ++ reference.toList ++ behind ∧
      '\x7b' ∉ front ∧ '\x7b' ∉ behind := by
  unfold referenceText Shape.arrayOf
  cases array with
  | false => exact ⟨[], [';'], by simp [String.toList_append], by decide, by decide⟩
  | true =>
    by_cases hp : isPlainElement reference = true
    · exact ⟨[], "[];".toList, by simp [hp, String.toList_append], by decide, by decide⟩
    · exact ⟨"Array<".toList, ">;".toList, by simp [hp, String.toList_append], by decide,
        by decide⟩

theorem referenceText_injective {array array' : Bool} {reference : String}
    (h : referenceText array reference = referenceText array' reference) : array = array' := by
  have hne : referenceText true reference ≠ referenceText false reference := by
    intro he
    have hl := congrArg (fun s => s.toList.length) he
    unfold referenceText Shape.arrayOf at hl
    by_cases hp : isPlainElement reference = true <;>
      simp [hp, String.toList_append] at hl
    omega
  cases array <;> cases array' <;> first | rfl | exact absurd h hne | exact absurd h.symm hne

section Plain

variable {ns : String} {references : References}

theorem mark_infix_referenceText (array : Bool) (name : String) :
    referenceMark ns <:+: (referenceText array (ns ++ ".I" ++ name)).toList := by
  obtain ⟨front, behind, hr, -⟩ := exists_referenceText array (ns ++ ".I" ++ name)
  rw [hr]
  exact ⟨front, 'I' :: name.toList ++ behind, by
    simp [referenceMark, String.toList_append, List.append_assoc]⟩

theorem noBrace_referenceText (hns : PlainNamespace ns) (array : Bool) {name : String}
    (hn : PlainText ns name) :
    '\x7b' ∉ (referenceText array (ns ++ ".I" ++ name)).toList := by
  obtain ⟨front, behind, hr, hf, hb⟩ := exists_referenceText array (ns ++ ".I" ++ name)
  have hs : '\x7b' ∉ ns.toList := fun hm => absurd (hns.parts _ hm) (by decide)
  rw [hr]
  simp [String.toList_append, hf, hb, hs, hn.noBrace]

/-- A branch begins with a line on its name whose value is not plain. -/
theorem exists_lines_branch (hr : SharedIn ns references) (name : String) (array : Bool)
    (members : List (String × Outline)) :
    ∃ value rest, lines references name (branch array members) = propertyLine name value :: rest ∧
      ¬ PlainText ns value := by
  rw [lines_branch]
  split
  · rename_i reference he
    refine ⟨_, _, rfl, fun hp => hp.noMark ?_⟩
    rw [hr.eq_reference he]
    exact mark_infix_referenceText array name
  · obtain ⟨value, rest, hl, hb⟩ := exists_branchLines name array (allLines references members)
    exact ⟨value, rest, hl, fun hp => hp.noBrace hb⟩

/-- A reference and a branch that is written out do not begin with the same line. -/
theorem reference_append_ne (hns : PlainNamespace ns) {name name' : String}
    (hn : PlainText ns name) (hn' : OneLine name') (array array' : Bool)
    (lines rest rest' : List String) :
    propertyLine name (referenceText array (ns ++ ".I" ++ name)) :: rest ≠
      branchLines name' array' lines ++ rest' := by
  obtain ⟨value, others, hl, hb⟩ := exists_branchLines name' array' lines
  intro h
  rw [hl] at h
  obtain ⟨-, rfl⟩ := propertyLine_injective hn.oneLine hn' (List.cons.inj h).1
  exact noBrace_referenceText hns array hn hb

/-- A leaf and a branch do not begin with the same line. -/
theorem lines_leaf_append_ne (hr : SharedIn ns references) {name name' : String}
    (hn : OneLine name) (hn' : OneLine name') {comment : Option String} {type : String}
    (hp : (leaf comment type).Plain ns name) (array : Bool) (members : List (String × Outline))
    (rest rest' : List String) :
    lines references name (leaf comment type) ++ rest ≠
      lines references name' (branch array members) ++ rest' := by
  obtain ⟨value, others, hl, hv⟩ := exists_lines_branch hr name' array members
  intro h
  rw [hl, lines_leaf] at h
  cases comment with
  | some comment =>
    exact propertyLine_ne_comment hn' value (hp.1 comment rfl).2 (List.cons.inj h).1.symm
  | none =>
    obtain ⟨-, rfl⟩ := propertyLine_injective hn hn' (List.cons.inj h).1
    exact hv hp.2

/-- Leaves tell where they end. -/
theorem lines_leaf_append_injective {name name' : String} (hn : OneLine name)
    (hn' : OneLine name') {comment comment' : Option String} {type type' : String}
    (hp : (leaf comment type).Plain ns name) (hp' : (leaf comment' type').Plain ns name')
    {rest rest' : List String}
    (h : lines references name (leaf comment type) ++ rest =
      lines references name' (leaf comment' type') ++ rest') :
    (name = name' ∧ leaf comment type = leaf comment' type') ∧ rest = rest' := by
  rw [lines_leaf, lines_leaf] at h
  cases comment with
  | none =>
    cases comment' with
    | none =>
      obtain ⟨hf, hr⟩ := List.cons.inj h
      obtain ⟨rfl, rfl⟩ := propertyLine_injective hn hn' hf
      exact ⟨⟨rfl, rfl⟩, hr⟩
    | some comment' =>
      exact absurd (List.cons.inj h).1 (propertyLine_ne_comment hn type (hp'.1 comment' rfl).2)
  | some comment =>
    cases comment' with
    | none =>
      exact absurd (List.cons.inj h).1.symm
        (propertyLine_ne_comment hn' type' (hp.1 comment rfl).2)
    | some comment' =>
      obtain ⟨rfl, ht⟩ := List.cons.inj h
      obtain ⟨hf, hr⟩ := List.cons.inj ht
      obtain ⟨rfl, rfl⟩ := propertyLine_injective hn hn' hf
      exact ⟨⟨rfl, rfl⟩, hr⟩

/-! ### Texts tell outlines apart -/

mutual

/-- The lines of a plain field tell the field and where it ends. -/
theorem lines_append_injective (hns : PlainNamespace ns) (hr : SharedIn ns references)
    {name name' : String} (hn : PlainText ns name) (hn' : PlainText ns name') :
    ∀ {outline outline' : Outline}, outline.Plain ns name → outline'.Plain ns name' →
      ∀ {rest rest' : List String},
        lines references name outline ++ rest = lines references name' outline' ++ rest' →
        (name = name' ∧ outline = outline') ∧ rest = rest'
  | leaf _ _, leaf _ _, hp, hp', _, _, h =>
    lines_leaf_append_injective hn.oneLine hn'.oneLine hp hp' h
  | leaf _ _, branch _ _, hp, _, _, _, h =>
    absurd h (lines_leaf_append_ne hr hn.oneLine hn'.oneLine hp _ _ _ _)
  | branch _ _, leaf _ _, _, hp', _, _, h =>
    absurd h.symm (lines_leaf_append_ne hr hn'.oneLine hn.oneLine hp' _ _ _ _)
  | branch array members, branch array' members', ⟨_, hp⟩, ⟨_, hp'⟩, rest, rest', h => by
    have hl : ∀ l ∈ allLines references members, OneLine l :=
      fun l hm => oneLine_of_mem_allLines hns hr hp hm
    have hl' : ∀ l ∈ allLines references members', OneLine l :=
      fun l hm => oneLine_of_mem_allLines hns hr hp' hm
    rw [lines_branch, lines_branch] at h
    -- each of the two branches is a reference or written out, and their first lines tell which
    cases he : references name (text references members) with
    | some reference =>
      obtain rfl := hr.eq_reference he
      cases he' : references name' (text references members') with
      | some reference' =>
        obtain rfl := hr.eq_reference he'
        simp only [he, he'] at h
        obtain ⟨hf, hrest⟩ := List.cons.inj h
        obtain ⟨rfl, hv⟩ := propertyLine_injective hn.oneLine hn'.oneLine hf
        obtain rfl := referenceText_injective hv
        -- the same name is shared for one text only, so the members have the same lines
        have hm : allLines references members = allLines references members' :=
          Shape.block_injective hl hl' (hr.unique he he')
        obtain rfl := allLines_injective hns hr hp hp' hm
        exact ⟨⟨rfl, rfl⟩, hrest⟩
      | none =>
        simp only [he, he'] at h
        exact absurd h (reference_append_ne hns hn hn'.oneLine _ _ _ _ _)
    | none =>
      cases he' : references name' (text references members') with
      | some reference' =>
        obtain rfl := hr.eq_reference he'
        simp only [he, he'] at h
        exact absurd h.symm (reference_append_ne hns hn' hn.oneLine _ _ _ _ _)
      | none =>
        simp only [he, he'] at h
        obtain ⟨⟨rfl, rfl⟩, hm, hrest⟩ := branchLines_append_injective hn.oneLine hn'.oneLine h
        obtain rfl := allLines_injective hns hr hp hp' hm
        exact ⟨⟨rfl, rfl⟩, hrest⟩

/-- The lines of plain fields tell all of them, once they end. -/
theorem allLines_injective (hns : PlainNamespace ns) (hr : SharedIn ns references) :
    ∀ {members members' : List (String × Outline)}, PlainMembers ns members →
      PlainMembers ns members' →
      allLines references members = allLines references members' → members = members'
  | [], [], _, _, _ => rfl
  | [], (name', outline') :: members', _, _, h => by
    exact absurd h.symm (by simp [lines_ne_nil])
  | (name, outline) :: members, [], _, _, h => by
    exact absurd h (by simp [lines_ne_nil])
  | (name, outline) :: members, (name', outline') :: members', ⟨hn, ho, hp⟩, ⟨hn', ho', hp'⟩,
    h => by
    rw [allLines_cons, allLines_cons] at h
    obtain ⟨⟨rfl, rfl⟩, hm⟩ := lines_append_injective hns hr hn hn' ho ho' h
    rw [allLines_injective hns hr hp hp' hm]

end

/-- **The text of plain fields determines their outline.** -/
theorem text_injective (hns : PlainNamespace ns) (hr : SharedIn ns references)
    {members members' : List (String × Outline)} (hp : PlainMembers ns members)
    (hp' : PlainMembers ns members') (h : text references members = text references members') :
    members = members' :=
  allLines_injective hns hr hp hp' (Shape.block_injective
    (fun _ hm => oneLine_of_mem_allLines hns hr hp hm)
    (fun _ hm => oneLine_of_mem_allLines hns hr hp' hm) h)

/-- **Plain fields have equal texts with some references exactly if they have equal texts without
any.** -/
theorem text_eq_iff (hns : PlainNamespace ns) (hr : SharedIn ns references)
    {members members' : List (String × Outline)} (hp : PlainMembers ns members)
    (hp' : PlainMembers ns members') :
    text references members = text references members' ↔
      text (fun _ _ => none) members = text (fun _ _ => none) members' := by
  constructor
  · intro h
    rw [text_injective hns hr hp hp' h]
  · intro h
    rw [text_injective hns (sharedIn_none ns) hp hp' h]

/-- The texts of plain trees are equal with some references exactly if their inlined texts are. -/
theorem render_eq_iff_inline (hns : PlainNamespace ns) (hr : SharedIn ns references)
    (known : KnownEnums) {fields other : Fields} (hf : FieldTree.PlainMembers ns fields)
    (ho : FieldTree.PlainMembers ns other) :
    Shape.render .asNeeded (Shape.ofFields known references fields) =
        Shape.render .asNeeded (Shape.ofFields known references other) ↔
      Shape.render .asNeeded (Shape.inline known fields) =
        Shape.render .asNeeded (Shape.inline known other) := by
  have hn := sharedIn_none ns
  unfold Shape.inline
  rw [text_ofFields hns hr known hf, text_ofFields hns hr known ho, text_ofFields hns hn known hf,
    text_ofFields hns hn known ho]
  exact text_eq_iff hns hr (plain_ofFields hns known hf) (plain_ofFields hns known ho)

end Plain

end SoapTypes.Outline
