import Mathlib.Data.List.Infix
import SoapTypes.Proofs.PropertyNames
import SoapTypes.Proofs.Tables
import SoapTypes.Shape.Build

/-!
# Plain texts and trees

A text is plain for a namespace when it stands on one line, opens no brace, and never names the
namespace with a dot behind it. Such a text cannot be taken for a part of an object type, nor for a
reference into the namespace. A tree is plain when its field names, labels and namespaces are.

* `PlainNamespace` is what is asked of the namespace: letters, digits and `_`.
* `plainText_leafText`: the type of a leaf with a plain label is plain, whatever is taken off it.
* `leafComment_spec`: its comment stands on one line and begins with `/`.
-/

namespace SoapTypes

open Text

/-- What every reference into a namespace begins with. -/
def referenceMark (ns : String) : List Char := ns.toList ++ ['.']

/-- A namespace of letters, digits and `_` that is not too short. -/
structure PlainNamespace (ns : String) : Prop where
  parts : ∀ c ∈ ns.toList, isDeclaredNamePart c = true
  long : 5 < ns.toList.length

/-- A text that stands on one line, opens no brace and holds no reference mark. -/
structure PlainText (ns s : String) : Prop where
  oneLine : OneLine s
  noBrace : '\x7b' ∉ s.toList
  noMark : ¬ referenceMark ns <:+: s.toList

instance (ns s : String) : Decidable (PlainText ns s) :=
  decidable_of_iff (OneLine s ∧ '\x7b' ∉ s.toList ∧ ¬ referenceMark ns <:+: s.toList)
    ⟨fun h => ⟨h.1, h.2.1, h.2.2⟩, fun h => ⟨h.oneLine, h.noBrace, h.noMark⟩⟩

/-! ### Parts of texts -/

theorem prefix_append_cons {mark a b : List Char} {c : Char} (hc : c ∉ mark)
    (h : mark <+: a ++ c :: b) : mark <+: a := by
  rcases List.prefix_or_prefix_of_prefix h (List.prefix_append a (c :: b)) with hm | ⟨d, rfl⟩
  · exact hm
  · cases d with
    | nil => simp
    | cons x d =>
      rw [List.prefix_append_right_inj, List.cons_prefix_cons] at h
      exact absurd (by simp [h.1]) hc

/-- What lies in a text on both sides of a foreign character lies on one of them. -/
theorem infix_append_cons {mark a b : List Char} {c : Char} (hc : c ∉ mark)
    (h : mark <:+: a ++ c :: b) : mark <:+: a ∨ mark <:+: b := by
  induction a with
  | nil =>
    rcases List.infix_cons_iff.1 h with hp | hi
    · exact Or.inl (prefix_append_cons (a := []) hc hp).isInfix
    · exact Or.inr hi
  | cons x a ih =>
    rcases List.infix_cons_iff.1 h with hp | hi
    · exact Or.inl (prefix_append_cons (a := x :: a) hc hp).isInfix
    · exact (ih hi).imp_left List.infix_cons

theorem isInfix_cut (sep : Char) (cs : List Char) :
    (cut sep cs).1 <+: cs ∧ ∀ piece ∈ (cut sep cs).2, piece <:+: cs := by
  induction cs with
  | nil => simp
  | cons c cs ih =>
    rw [cut_cons]
    by_cases h : c = sep
    · rw [if_pos h]
      refine ⟨List.nil_prefix, ?_⟩
      intro piece hp
      rcases List.mem_cons.1 hp with rfl | hp
      · exact List.infix_cons ih.1.isInfix
      · exact List.infix_cons (ih.2 piece hp)
    · rw [if_neg h]
      exact ⟨List.cons_prefix_cons.2 ⟨rfl, ih.1⟩, fun piece hp => List.infix_cons (ih.2 piece hp)⟩

/-- A piece of a text is a part of it. -/
theorem infix_of_mem_allPieces {sep : Char} {s piece : String} (h : piece ∈ allPieces sep s) :
    piece.toList <:+: s.toList := by
  obtain ⟨hf, hr⟩ := isInfix_cut sep s.toList
  rw [allPieces_eq, List.mem_cons, List.mem_map] at h
  rcases h with rfl | ⟨p, hp, rfl⟩
  · simpa using hf.isInfix
  · simpa using hr p hp

section Plain

variable {ns : String}

theorem PlainNamespace.not_mem_mark (hns : PlainNamespace ns) {c : Char}
    (hc : isDeclaredNamePart c = false) (hd : c ≠ '.') : c ∉ referenceMark ns := by
  intro hm
  rcases List.mem_append.1 hm with hm | hm
  · exact absurd (hns.parts c hm) (by simp [hc])
  · exact hd (List.mem_singleton.1 hm)

theorem PlainText.of_infix {s t : String} (h : PlainText ns t) (hi : s.toList <:+: t.toList) :
    PlainText ns s where
  oneLine := fun hm => h.oneLine (hi.mem hm)
  noBrace := fun hm => h.noBrace (hi.mem hm)
  noMark := fun hm => h.noMark (hm.trans hi)

/-- Plain texts with a character between them that no reference mark holds are plain. -/
theorem PlainText.append {s t u : String} {c : Char} (hns : PlainNamespace ns)
    (hs : PlainText ns s) (ht : PlainText ns t) (hu : u.toList = s.toList ++ c :: t.toList)
    (hc : isDeclaredNamePart c = false) (hd : c ≠ '.') (hb : c ≠ '\n') (ho : c ≠ '\x7b') :
    PlainText ns u where
  oneLine := by
    have h1 := hs.oneLine
    have h2 := ht.oneLine
    simp_all [OneLine, Ne.symm hb]
  noBrace := by
    have h1 := hs.noBrace
    have h2 := ht.noBrace
    simp_all [Ne.symm ho]
  noMark := by
    intro hm
    rw [hu] at hm
    rcases infix_append_cons (hns.not_mem_mark hc hd) hm with hm | hm
    · exact hs.noMark hm
    · exact ht.noMark hm

/-- A text without a dot holds no reference mark. -/
theorem PlainText.of_no_dot {s : String} (h1 : OneLine s) (hb : '\x7b' ∉ s.toList)
    (hd : '.' ∉ s.toList) : PlainText ns s where
  oneLine := h1
  noBrace := hb
  noMark := fun hm => hd (hm.mem (by simp [referenceMark]))

end Plain

/-! ### Labels -/

theorem Text.eq_of_nonempty? {s t : String} (h : nonempty? s = some t) : t = s := by
  unfold nonempty? at h
  split at h <;> simp_all

namespace LeafLabel

/-- What a label says stands in its text. -/
theorem isInfix_parse (text : String) :
    (parse text).displayName.toList <:+: text.toList ∧
      (parse text).baseType.toList <:+: text.toList ∧
      ∀ data, (parse text).facetData = some data → data.toList <:+: text.toList := by
  have hp : ∀ piece ∈ (pieces '|' text).1 :: (pieces '|' text).2, piece.toList <:+: text.toList :=
    fun piece hm => infix_of_mem_allPieces hm
  unfold parse
  split
  · rename_i whole he
    have hw := hp whole (by simp [he])
    exact ⟨hw, hw, by simp⟩
  · rename_i name base more he
    have hn := hp name (by simp [he])
    have hb := hp base (by simp [he])
    refine ⟨hn, ?_, ?_⟩
    · cases hv : nonempty? base with
      | none => simpa [hv] using hn
      | some b => simpa [hv, eq_of_nonempty? hv] using hb
    · intro data hd
      obtain ⟨third, ht, hd⟩ := Option.bind_eq_some_iff.1 hd
      rw [eq_of_nonempty? hd]
      exact hp third (by simp [he, List.mem_of_mem_head? ht])

theorem infix_of_mem_facetValues {label : LeafLabel} {value : String}
    (h : value ∈ label.facetValues) :
    ∃ data, label.facetData = some data ∧ value.toList <:+: data.toList := by
  unfold facetValues at h
  split at h
  · simp at h
  · rename_i data hd
    split at h
    · simp at h
    · exact ⟨data, hd, infix_of_mem_allPieces h⟩

end LeafLabel

namespace Shape

/-! ### Leaves -/

/-- The comment of a leaf. -/
def leafComment (targetNamespace : Option String) (text : String) : Option String :=
  (LeafLabel.parse text).facetData.map fun data =>
    "/** " ++ qualifiedName targetNamespace (LeafLabel.parse text).displayName ++ "(" ++ data ++
      ") */"

/-- The type of a leaf before its namespace prefix is taken off. -/
def qualifiedLeafType (known : KnownEnums) (targetNamespace : Option String) (array : Bool)
    (text : String) : String :=
  let label := LeafLabel.parse text
  let type := leafType known (qualifiedName targetNamespace label.displayName) label
  (if array then arrayOf type else type) ++ ";"

/-- What is written behind the name of a leaf. -/
def leafText (known : KnownEnums) (targetNamespace : Option String) (array : Bool)
    (text : String) : String :=
  stripNamespace (qualifiedLeafType known targetNamespace array text)

theorem resolveLeaf_eq (known : KnownEnums) (targetNamespace : Option String) (array : Bool)
    (text : String) :
    resolveLeaf known targetNamespace array text =
      .leaf (leafComment targetNamespace text)
        (qualifiedLeafType known targetNamespace array text) := rfl

section Leaf

variable {ns : String}

theorem oneLine_qualifiedName {targetNamespace : Option String} {name : String}
    (ht : ∀ uri, targetNamespace = some uri → OneLine uri) (hn : OneLine name) :
    OneLine (qualifiedName targetNamespace name) := by
  cases targetNamespace with
  | none => exact hn
  | some uri => exact ((ht uri rfl).append (by decide)).append hn

theorem oneLine_arrayOf {type : String} (h : OneLine type) : OneLine (arrayOf type) := by
  unfold arrayOf
  split
  · exact h.append (by decide)
  · exact (OneLine.append (by decide) h).append (by decide)

/-- The comment of a leaf stands on one line and begins with a slash. -/
theorem leafComment_spec {targetNamespace : Option String} {text comment : String}
    (ht : ∀ uri, targetNamespace = some uri → OneLine uri) (hl : OneLine text)
    (h : leafComment targetNamespace text = some comment) :
    OneLine comment ∧ ∃ cs, comment.toList = '/' :: cs := by
  obtain ⟨hn, -, hd⟩ := LeafLabel.isInfix_parse text
  obtain ⟨data, he, rfl⟩ := Option.map_eq_some_iff.1 h
  have hd : OneLine data := hl.of_isInfix (hd data he)
  have hq := oneLine_qualifiedName ht (hl.of_isInfix hn)
  refine ⟨((((OneLine.append (by decide) hq).append (by decide)).append hd).append (by decide)), ?_⟩
  simp only [String.toList_append, List.append_assoc]
  exact ⟨_, rfl⟩

theorem plainText_primitive {localName primitive : String}
    (h : Primitive.ofSchemaType? localName = some primitive) : PlainText ns primitive := by
  have hm := Primitive.mem_names_of_mem_table (Entries.mem_of_value? h)
  have hall : ∀ name ∈ Primitive.names, OneLine name ∧ '\x7b' ∉ name.toList ∧ '.' ∉ name.toList := by
    decide
  obtain ⟨h1, hb, hd⟩ := hall primitive hm
  exact PlainText.of_no_dot h1 hb hd

theorem plainText_empty : PlainText ns "" := PlainText.of_no_dot (by decide) (by decide) (by decide)

theorem plainText_joinWith (hns : PlainNamespace ns) {values : List String}
    (h : ∀ value ∈ values, PlainText ns value) : PlainText ns (joinWith "\" | \"" values) := by
  induction values with
  | nil => exact plainText_empty
  | cons value values ih =>
    cases values with
    | nil => exact h value (by simp)
    | cons next values =>
      have hv := h value (by simp)
      have hr := ih fun v hm => h v (List.mem_cons_of_mem _ hm)
      have hs : PlainText ns (" | \"" ++ joinWith "\" | \"" (next :: values)) :=
        (PlainText.of_no_dot (s := " | ") (by decide) (by decide) (by decide)).append hns hr
          (c := '"') (by simp [String.toList_append]) (by decide) (by decide) (by decide) (by decide)
      exact hv.append hns hs (c := '"') (by simp [String.toList_append]) (by decide) (by decide)
        (by decide) (by decide)

theorem plainText_literalUnion (hns : PlainNamespace ns) {values : List String}
    (h : ∀ value ∈ values, PlainText ns value) : PlainText ns (literalUnion values) := by
  have hl : PlainText ns ("\"" ++ joinWith "\" | \"" values) :=
    plainText_empty.append hns (plainText_joinWith hns h) (c := '"')
      (by simp [String.toList_append]) (by decide) (by decide) (by decide) (by decide)
  exact hl.append hns plainText_empty (c := '"')
    (by simp [literalUnion, String.toList_append]) (by decide) (by decide) (by decide) (by decide)

theorem plainText_leafType (hns : PlainNamespace ns) (known : KnownEnums) (qualified : String)
    {text : String} (h : PlainText ns text) :
    PlainText ns (leafType known qualified (LeafLabel.parse text)) := by
  obtain ⟨-, hb, hd⟩ := LeafLabel.isInfix_parse text
  have hv : ∀ value ∈ (LeafLabel.parse text).facetValues, PlainText ns value := by
    intro value hm
    obtain ⟨data, he, hi⟩ := LeafLabel.infix_of_mem_facetValues hm
    exact h.of_infix (hi.trans (hd data he))
  have hl : ∀ value ∈ literals known qualified (LeafLabel.parse text), PlainText ns value := by
    intro value hm
    unfold literals at hm
    split at hm
    · exact hv value hm
    · exact hv value (List.mem_filter.1 hm).1
  unfold leafType
  split
  · rename_i primitive hp
    exact plainText_primitive hp
  · split
    · exact h.of_infix hb
    · exact plainText_literalUnion hns hl

theorem plainText_arrayOf (hns : PlainNamespace ns) {type : String} (h : PlainText ns type) :
    PlainText ns (arrayOf type) := by
  unfold arrayOf
  split
  · exact h.append hns (PlainText.of_no_dot (s := "]") (by decide) (by decide) (by decide))
      (c := '[') (by simp [String.toList_append]) (by decide) (by decide) (by decide) (by decide)
  · have ha : PlainText ns ("Array<" ++ type) :=
      (PlainText.of_no_dot (s := "Array") (by decide) (by decide) (by decide)).append hns h
        (c := '<') (by simp [String.toList_append]) (by decide) (by decide) (by decide) (by decide)
    exact ha.append hns plainText_empty (c := '>') (by simp [String.toList_append]) (by decide)
      (by decide) (by decide) (by decide)

/-- What stays of a text in front of its last bracket is nothing, or ends with the bracket. -/
theorem throughLastBracket_cases (cs : List Char) :
    throughLastBracket cs = [] ∨
      ∃ front, throughLastBracket cs = front ++ ['<'] ∧ front ++ ['<'] <+: cs := by
  have hp : throughLastBracket cs <+: cs := by
    rw [← List.reverse_suffix, throughLastBracket, List.reverse_reverse]
    exact List.dropWhile_suffix _
  rcases List.eq_nil_or_concat (throughLastBracket cs) with h | ⟨front, c, h⟩
  · exact Or.inl h
  · rw [List.concat_eq_append] at h
    have hr : cs.reverse.dropWhile (fun c => c != '<') = c :: front.reverse := by
      rw [← List.reverse_inj]
      simpa [throughLastBracket] using h
    have hc : c = '<' := by
      have := List.head?_dropWhile_not (fun c => c != '<') cs.reverse
      rw [hr] at this
      simpa using this
    subst hc
    exact Or.inr ⟨front, h, h ▸ hp⟩

/-- Taking off a namespace prefix leaves a plain text plain. -/
theorem plainText_stripNamespace (hns : PlainNamespace ns) {type : String}
    (h : PlainText ns type) : PlainText ns (stripNamespace type) := by
  have ht := List.takeWhile_append_dropWhile (p := fun c => c != ':') (l := type.toList)
  simp only [stripNamespace]
  split
  · exact h
  · rename_i colon behind hd
    rw [hd] at ht
    split
    · exact h
    · have hb : PlainText ns (String.ofList behind) :=
        h.of_infix ⟨type.toList.takeWhile (fun c => c != ':') ++ [colon], [], by simpa using ht⟩
      rcases throughLastBracket_cases (type.toList.takeWhile fun c => c != ':') with he | ⟨f, he, hp⟩
      · rw [he, List.nil_append]
        exact hb
      · -- front and rest meet at the bracket, and no reference mark reaches across it
        have hf : PlainText ns (String.ofList f) := by
          refine h.of_infix ?_
          rw [← ht, String.toList_ofList]
          exact ((List.prefix_append f _).trans (hp.trans (List.prefix_append _ _))).isInfix
        exact hf.append hns hb (c := '<') (by simp [he]) (by decide) (by decide) (by decide)
          (by decide)

/-- **The type of a leaf with a plain label is plain.** -/
theorem plainText_leafText (hns : PlainNamespace ns) (known : KnownEnums)
    (targetNamespace : Option String) (array : Bool) {text : String} (h : PlainText ns text) :
    PlainText ns (leafText known targetNamespace array text) := by
  have ht := plainText_leafType hns known
    (qualifiedName targetNamespace (LeafLabel.parse text).displayName) h
  have ha := plainText_arrayOf hns ht
  refine plainText_stripNamespace hns ?_
  unfold qualifiedLeafType
  cases array with
  | false =>
    exact ht.append hns plainText_empty (c := ';') (by simp [String.toList_append]) (by decide)
      (by decide) (by decide) (by decide)
  | true =>
    exact ha.append hns plainText_empty (c := ';') (by simp [String.toList_append]) (by decide)
      (by decide) (by decide) (by decide)

end Leaf

end Shape

namespace FieldTree

/-! ### Trees -/

mutual

/-- All labels, field names and namespaces of a tree are plain. -/
def Plain (ns : String) : FieldTree → Prop
  | .leaf label => PlainText ns label
  | .branch members => PlainMembers ns members

/-- All labels, field names and namespaces below an object of fields are plain, and its own
namespace is a text. -/
def PlainMembers (ns : String) : List (String × FieldTree) → Prop
  | [] => True
  | (key, tree) :: members =>
    (key = targetNamespaceKey → ∃ uri, tree = leaf uri ∧ PlainText ns uri) ∧
      (isMetadata key = false → PlainText ns key ∧ tree.Plain ns) ∧ PlainMembers ns members

end

theorem plainText_targetNamespace {ns : String} {members : Fields} (h : PlainMembers ns members)
    {uri : String} (hu : targetNamespace? members = some uri) : PlainText ns uri := by
  induction members with
  | nil => simp [targetNamespace?] at hu
  | cons member members ih =>
    obtain ⟨key, tree⟩ := member
    obtain ⟨ht, -, hm⟩ := h
    by_cases hk : key = targetNamespaceKey
    · obtain ⟨label, rfl, hl⟩ := ht hk
      rw [targetNamespace?, Entries.value?, if_pos hk] at hu
      by_cases hb : (leaf label).toJson.isBlank = true
      · simp only [hb, if_true] at hu
        cases hu
      · simp only [hb, Bool.false_eq_true, if_false] at hu
        exact Option.some.inj hu ▸ hl
    · refine ih hm ?_
      simpa only [targetNamespace?, Entries.value?, hk, if_false] using hu

theorem isPrefix_fieldName (key : String) : (fieldName key).toList <+: key.toList := by
  unfold fieldName
  split
  · rw [String.toList_ofList]
    exact List.take_prefix _ _
  · exact List.prefix_rfl

theorem plainText_fieldName {ns key : String} (h : PlainText ns key) :
    PlainText ns (fieldName key) := h.of_infix (isPrefix_fieldName key).isInfix

/-- The field of a member that marks no array has no array mark either. -/
theorem isArrayKey_fieldName {key : String} (h : isArrayKey key = false) :
    isArrayKey (fieldName key) = false := by
  rwa [fieldName, if_neg (by simp [h])]

end FieldTree

end SoapTypes
