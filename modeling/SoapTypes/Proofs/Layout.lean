import SoapTypes.Proofs.FieldMembers
import SoapTypes.Proofs.LeafTexts

/-!
# The layout of an object type

The text of an object of fields is indented as one would write it by hand: going through the fields
once, with the depth at hand, each on a line of its own. The text is not made that way. It is built
from the inside, and a block moves to the right once for every block around it, all its lines at
once; that these moves add up to one step for each level is `Text.withMargin_withMargin`.

* `Layout.object` writes an object of fields at a depth.
* `Layout.Tidy` is what is asked of an object: no line breaks, and a field of its own for every key.
* `Layout.withMargin_render`: the text of an object that is moved to a depth is written at it.
* `Layout.render_eq_object` is the case of the depth zero.
-/

namespace SoapTypes.Layout

open Text FieldTree

/-! ### Writing at a depth -/

/-- The margin at a depth. -/
def margin (depth : Nat) : String := String.ofList (List.replicate (4 * depth) ' ')

/-- Texts at a depth, each on a line of its own. -/
def onLines (depth : Nat) : List String → String
  | [] => ""
  | line :: lines => "\n" ++ margin depth ++ line ++ onLines depth lines

/-- The braces of an object at a depth around its fields, if it has any. -/
def enclosed (depth : Nat) (members : Fields) (fields : String) : String :=
  if (keyed members).isEmpty then "\x7b\x7d" else "\x7b" ++ fields ++ "\n" ++ margin depth ++ "\x7d"

/-- The comment of a field. -/
def comment? (targetNamespace : Option String) : FieldTree → Option String
  | .leaf label => Shape.leafComment targetNamespace label
  | .branch _ => none

/-- The type that a leaf is resolved to, without its prefix. -/
def leafValue (known : KnownEnums) (targetNamespace : Option String) (array : Bool)
    (label : String) : String :=
  let parsed := LeafLabel.parse label
  let type := Shape.leafType known (Shape.qualifiedName targetNamespace parsed.displayName) parsed
  Shape.stripNamespace (if array then Shape.arrayOf type else type)

mutual

/-- What stands behind the name of a field at a depth. -/
def value (known : KnownEnums) (targetNamespace : Option String) (depth : Nat) (array : Bool) :
    FieldTree → String
  | .leaf label => leafValue known targetNamespace array label
  | .branch members =>
    Shape.wrapped array
      (enclosed depth members (fields known (targetNamespace? members) (depth + 1) members))

/-- The fields of an object at a depth, each behind its comment. -/
def fields (known : KnownEnums) (targetNamespace : Option String) (depth : Nat) :
    List (String × FieldTree) → String
  | [] => ""
  | (key, tree) :: members =>
    if isMetadata key then fields known targetNamespace depth members
    else
      onLines depth ((comment? targetNamespace tree).toList ++
          [Shape.propertyName .asNeeded (fieldName key) ++ ": " ++
            value known targetNamespace depth (isArrayKey key) tree ++ ";"]) ++
        fields known targetNamespace depth members

end

/-- An object of fields at a depth. -/
def object (known : KnownEnums) (depth : Nat) (members : Fields) : String :=
  enclosed depth members (fields known (targetNamespace? members) (depth + 1) members)

/-- A tree that is a leaf has its label on one line. -/
def OneLineLabel : FieldTree → Prop
  | .leaf label => OneLine label
  | .branch _ => True

instance : DecidablePred OneLineLabel
  | .leaf label => inferInstanceAs (Decidable (OneLine label))
  | .branch _ => inferInstanceAs (Decidable True)

/-- The keys and labels of an object of fields and a text that is its namespace hold no line break,
and no two keys name one field. -/
structure Tidy (members : Fields) : Prop where
  keys : ∀ entry ∈ members, isMetadata entry.1 = false → OneLine entry.1
  labels : ∀ entry ∈ members, isMetadata entry.1 = false → OneLineLabel entry.2
  targetNamespace : ∀ entry ∈ members, entry.1 = targetNamespaceKey → OneLineLabel entry.2
  names : (fieldNames members).Nodup

instance : DecidablePred Tidy := fun members =>
  decidable_of_iff
    ((∀ entry ∈ members, isMetadata entry.1 = false → OneLine entry.1) ∧
      (∀ entry ∈ members, isMetadata entry.1 = false → OneLineLabel entry.2) ∧
      (∀ entry ∈ members, entry.1 = targetNamespaceKey → OneLineLabel entry.2) ∧
      (fieldNames members).Nodup)
    ⟨fun ⟨hk, hl, ht, hn⟩ => ⟨hk, hl, ht, hn⟩, fun h => ⟨h.1, h.2, h.3, h.4⟩⟩

/-! ### Lines at a depth -/

theorem oneLine_margin (depth : Nat) : OneLine (margin depth) := by
  simp [OneLine, margin]

theorem margin_add (depth more : Nat) : margin depth ++ margin more = margin (depth + more) := by
  rw [← String.toList_inj]
  simp [margin, String.toList_append, Nat.mul_add]

theorem indentStep_eq_margin : indentStep = margin 1 := by decide

theorem onLines_append (depth : Nat) (lines more : List String) :
    onLines depth (lines ++ more) = onLines depth lines ++ onLines depth more := by
  induction lines with
  | nil => simp [onLines]
  | cons line lines ih => simp [onLines, ih, String.append_assoc]

/-- Lines at a depth that are moved are at a greater depth. -/
theorem withMargin_onLines (depth more : Nat) (lines : List String) :
    withMargin (margin depth) (onLines more lines) =
      onLines (depth + more) (lines.map (withMargin (margin depth))) := by
  induction lines with
  | nil => rfl
  | cons line lines ih =>
    rw [onLines, withMargin_append, withMargin_append, withMargin_append, withMargin_break, ih,
      withMargin_of_oneLine _ (oneLine_margin more), List.map_cons, onLines, ← margin_add]
    simp only [String.append_assoc]

/-- The text of an object type is its lines at the depth one, in braces. -/
theorem block_eq_onLines {lines : List String} (h : lines ≠ []) :
    Shape.block lines = "\x7b" ++ onLines 1 lines ++ "\n\x7d" := by
  have hjoin : ∀ line lines, "\n" ++ indentStep ++ joinWith ("\n" ++ indentStep) (line :: lines) =
      onLines 1 (line :: lines) := by
    intro line lines
    induction lines generalizing line with
    | nil => simp [onLines, indentStep_eq_margin]
    | cons next lines ih =>
      rw [joinWith_cons_cons, onLines, ← ih, ← indentStep_eq_margin]
      simp only [String.append_assoc]
  obtain ⟨line, lines, rfl⟩ := List.exists_cons_of_ne_nil h
  rw [← hjoin, Shape.block]
  have hopen : ("\x7b\n" : String) = "\x7b" ++ "\n" := rfl
  simp only [hopen, String.append_assoc]

/-- An object type that is moved to a depth has its lines one step further. -/
theorem withMargin_block (depth : Nat) {lines : List String} (h : lines ≠ []) :
    withMargin (margin depth) (Shape.block lines) =
      "\x7b" ++ onLines (depth + 1) (lines.map (withMargin (margin depth))) ++ "\n" ++
        margin depth ++ "\x7d" := by
  have hclose : ("\n\x7d" : String) = "\n" ++ "\x7d" := rfl
  rw [block_eq_onLines h, withMargin_append, withMargin_append, withMargin_onLines, hclose,
    withMargin_append, withMargin_break, withMargin_of_oneLine _ (show OneLine "\x7b" by decide),
    withMargin_of_oneLine _ (show OneLine "\x7d" by decide)]
  simp only [String.append_assoc]

/-! ### Texts on one line -/

theorem oneLine_leafType (known : KnownEnums) (qualified : String) {label : String}
    (h : OneLine label) : OneLine (Shape.leafType known qualified (LeafLabel.parse label)) := by
  obtain ⟨-, hb, hd⟩ := LeafLabel.isInfix_parse label
  have hvalues : ∀ value ∈ (LeafLabel.parse label).facetValues, OneLine value := by
    intro value hm
    obtain ⟨data, he, hi⟩ := LeafLabel.infix_of_mem_facetValues hm
    exact h.of_isInfix (hi.trans (hd data he))
  have hliterals : ∀ value ∈ Shape.literals known qualified (LeafLabel.parse label),
      OneLine value := by
    intro value hm
    unfold Shape.literals at hm
    split at hm
    · exact hvalues value hm
    · exact hvalues value (List.mem_filter.1 hm).1
  unfold Shape.leafType
  split
  · rename_i primitive hp
    have hall : ∀ entry ∈ Primitive.table, OneLine entry.2 := by decide
    exact hall _ (Entries.mem_of_value? hp)
  · split
    · exact h.of_isInfix hb
    · exact (OneLine.append (by decide) (oneLine_joinWith (by decide) hliterals)).append (by decide)

theorem oneLine_stripNamespace {type : String} (h : OneLine type) :
    OneLine (Shape.stripNamespace type) := by
  simp only [Shape.stripNamespace]
  split
  · exact h
  · rename_i colon behind hd
    have hbehind : behind ⊆ type.toList := by
      have hs : type.toList.dropWhile (fun c => c != ':') ⊆ type.toList :=
        (List.dropWhile_suffix _).subset
      rw [hd] at hs
      exact fun c hc => hs (List.mem_cons_of_mem _ hc)
    have hbefore : Shape.throughLastBracket (type.toList.takeWhile fun c => c != ':') ⊆
        type.toList := by
      intro c hc
      rw [Shape.throughLastBracket, List.mem_reverse] at hc
      have hc := (List.dropWhile_suffix _).subset hc
      exact (List.takeWhile_prefix _).subset (List.mem_reverse.1 hc)
    split
    · exact h
    · intro hm
      rw [String.toList_ofList, List.mem_append] at hm
      exact h (hm.elim (hbefore ·) (hbehind ·))

theorem oneLine_leafValue (known : KnownEnums) (targetNamespace : Option String) (array : Bool)
    {label : String} (h : OneLine label) :
    OneLine (leafValue known targetNamespace array label) := by
  have ht := oneLine_leafType known
    (Shape.qualifiedName targetNamespace (LeafLabel.parse label).displayName) h
  refine oneLine_stripNamespace ?_
  split
  · exact Shape.oneLine_arrayOf ht
  · exact ht

/-- The form in which a diagnostic shows a text has no line break. -/
theorem oneLine_display (s : String) : OneLine (display s) := by
  have hquote : displayQuote s.toList ≠ '\n' := by
    unfold displayQuote
    split <;> decide
  have hchar : ∀ c, '\n' ∉ displayChar (displayQuote s.toList) c := by
    intro c
    unfold displayChar
    split_ifs with h hb
    · rcases h with rfl | rfl
      · simp [hquote.symm]
      · decide
    · decide
    · decide
    · decide
    · simpa using Ne.symm hb
    · simp [break_not_mem_hexDigits]
    · simp [break_not_mem_hexDigits]
    · simp [break_not_mem_hexDigits]
  simp [OneLine, display, hquote.symm, hchar]

mutual

/-- A tree that stands where a namespace should is shown on one line, unless it is a text. -/
theorem oneLine_display_toJson : ∀ tree : FieldTree, OneLine tree.toJson.display
  | .leaf label => oneLine_display label
  | .branch members =>
    (OneLine.append (by decide)
      (oneLine_joinWith (by decide) (oneLine_displayMembers members))).append (by decide)

theorem oneLine_displayMembers : ∀ (members : List (String × FieldTree)),
    ∀ text ∈ Json.displayMembers (membersToJson members), OneLine text
  | [] => by simp [membersToJson, Json.displayMembers]
  | (key, tree) :: members =>
    List.forall_mem_cons.2
      ⟨((oneLine_display key).append (by decide)).append (oneLine_display_toJson tree),
        oneLine_displayMembers members⟩

end

theorem Tidy.oneLine_targetNamespace {members : Fields} (h : Tidy members) {uri : String}
    (hu : targetNamespace? members = some uri) : OneLine uri := by
  unfold targetNamespace? at hu
  split at hu
  · cases hu
  · rename_i tree ht
    split at hu
    · cases hu
    · rw [← Option.some.inj hu]
      cases tree with
      | leaf label => exact h.targetNamespace _ (Entries.mem_of_value? ht) rfl
      | branch inner => exact oneLine_display_toJson (.branch inner)

/-! ### The text of an object -/

/-- The semicolon behind a type stays where it is when the type loses its prefix. -/
theorem stripNamespace_semicolon (type : String) :
    Shape.stripNamespace (type ++ ";") = Shape.stripNamespace type ++ ";" := by
  by_cases hc : ':' ∈ type.toList
  · obtain ⟨front, back, ht, hf⟩ := List.eq_append_cons_of_mem hc
    obtain rfl : type = String.ofList front ++ ":" ++ String.ofList back := by
      rw [← String.toList_inj, ht]
      simp [String.toList_append]
    by_cases hq : '"' ∈ front
    · -- a quote in front of the first colon
      obtain ⟨f, b, rfl, -⟩ := List.eq_append_cons_of_mem hq
      have hcolon : ':' ∉ (String.ofList f).toList := by
        simpa using fun hm => hf (List.mem_append_left _ hm)
      have hsplit : String.ofList (f ++ '"' :: b) = String.ofList f ++ "\"" ++ String.ofList b := by
        rw [← String.toList_inj]
        simp [String.toList_append]
      have hkept := fun back => Shape.stripNamespace_of_quote (String.ofList f) back hcolon
      simp only [hsplit, String.append_assoc] at hkept ⊢
      rw [hkept, hkept]
      simp only [String.append_assoc]
    · have hkept := fun back => Shape.stripNamespace_append (String.ofList front) _ back
        (by simpa using hf) (by simpa using hq) rfl
      rw [hkept, String.append_assoc, hkept, String.append_assoc]
  · rw [Shape.stripNamespace_of_not_mem hc, Shape.stripNamespace_of_not_mem]
    simpa [String.toList_append] using hc

theorem leafText_eq (known : KnownEnums) (targetNamespace : Option String) (array : Bool)
    (label : String) :
    Shape.leafText known targetNamespace array label =
      leafValue known targetNamespace array label ++ ";" :=
  stripNamespace_semicolon _

theorem value_branch (known : KnownEnums) (targetNamespace : Option String) (depth : Nat)
    (array : Bool) (members : Fields) :
    value known targetNamespace depth array (.branch members) =
      Shape.wrapped array (object known depth members) := rfl

section Members

variable {known : KnownEnums} {targetNamespace : Option String} {key : String}

/-- The lines of a leaf stand as they are at any depth. -/
theorem map_memberLines_leaf (ht : ∀ uri, targetNamespace = some uri → OneLine uri)
    (hk : OneLine key) {label : String} (hl : OneLine label) (array : Bool) (depth : Nat) :
    (Shape.memberLines .asNeeded (fieldName key)
        (Shape.resolveLeaf known targetNamespace array label)).map (withMargin (margin depth)) =
      (comment? targetNamespace (.leaf label)).toList ++
        [Shape.propertyName .asNeeded (fieldName key) ++ ": " ++
          value known targetNamespace (depth + 1) array (.leaf label) ++ ";"] := by
  have hproperty : OneLine (Shape.propertyName .asNeeded (fieldName key)) :=
    Shape.oneLine_propertyName (hk.of_isInfix (isPrefix_fieldName key).isInfix)
  have hlines : ∀ line ∈ (Shape.leafComment targetNamespace label).toList ++
      [Shape.propertyName .asNeeded (fieldName key) ++ ": " ++
        (leafValue known targetNamespace array label ++ ";")], OneLine line := by
    intro line hm
    rcases List.mem_append.1 hm with hm | hm
    · exact (Shape.leafComment_spec ht hl (Option.mem_toList.1 hm)).1
    · rw [List.mem_singleton.1 hm]
      exact (hproperty.append (by decide)).append
        ((oneLine_leafValue known targetNamespace array hl).append (by decide))
  rw [Shape.memberLines_resolveLeaf, leafText_eq,
    List.map_congr_left fun line hm => withMargin_of_oneLine _ (hlines line hm), List.map_id',
    ← String.append_assoc]
  rfl

/-- A branch moves to a depth as its object does, one step further. -/
theorem map_memberLines_branch (hk : OneLine key) {members : Fields} {depth : Nat}
    (h : withMargin (margin (depth + 1)) (Shape.render .asNeeded (Shape.inline known members)) =
      object known (depth + 1) members) (array : Bool) :
    (Shape.memberLines .asNeeded (fieldName key) (Shape.buildTree known (fun _ _ => none)
        targetNamespace array (fieldName key) (.branch members)).result).map
        (withMargin (margin depth)) =
      [Shape.propertyName .asNeeded (fieldName key) ++ ": " ++
        value known targetNamespace (depth + 1) array (.branch members) ++ ";"] := by
  have hproperty : OneLine (Shape.propertyName .asNeeded (fieldName key)) :=
    Shape.oneLine_propertyName (hk.of_isInfix (isPrefix_fieldName key).isInfix)
  have hindent : withMargin (margin depth) (indent (Shape.render .asNeeded
      (Shape.inline known members))) = object known (depth + 1) members := by
    rw [indent_eq_withMargin, withMargin_withMargin _ (by decide), indentStep_eq_margin, margin_add,
      h]
  have hfixed : ∀ s, OneLine s → withMargin (margin depth) s = s :=
    fun s hs => withMargin_of_oneLine _ hs
  have hinline : Shape.ofFields known (fun _ _ => none) members = Shape.inline known members := rfl
  rw [Shape.buildTree_branch, hinline, value_branch]
  cases array with
  | false =>
    simp only [Shape.branchMember, Shape.memberLines_nested, List.map_cons, List.map_nil,
      withMargin_append, Shape.wrapped]
    rw [hfixed _ hproperty, hfixed ": " (by decide), hfixed ";" (by decide), hindent]
    rfl
  | true =>
    have hwrapped : Shape.arrayOf (indent (Shape.render .asNeeded (Shape.inline known members))) =
        "Array<" ++ indent (Shape.render .asNeeded (Shape.inline known members)) ++ ">" :=
      Outline.arrayOf_block _
    simp only [Shape.branchMember, Shape.memberLines_text, Option.getD_none, List.map_cons,
      List.map_nil, hwrapped, withMargin_append, Shape.wrapped]
    rw [hfixed _ hproperty, hfixed ": " (by decide), hfixed ";" (by decide),
      hfixed "Array<" (by decide), hfixed ">" (by decide), hindent]
    simp only [if_true, String.append_assoc]

/-- The text of an object is moved to a depth with the lines of its members. -/
theorem withMargin_render_of_lines {members : Fields} {depth : Nat}
    (hn : (fieldNames members).Nodup)
    (h : onLines (depth + 1) ((Shape.lines .asNeeded (Shape.buildTrees known (fun _ _ => none)
        (targetNamespace? members) members).result).map (withMargin (margin depth))) =
      fields known (targetNamespace? members) (depth + 1) members) :
    withMargin (margin depth) (Shape.render .asNeeded (Shape.inline known members)) =
      object known depth members := by
  have hresult := @Shape.result_buildTrees known (fun _ _ => none) (targetNamespace? members)
    members
  have hshape : Shape.inline known members =
      (Shape.buildTrees known (fun _ _ => none) (targetNamespace? members) members).result :=
    Entries.ofPairs_eq_self_iff.2 (by rwa [hresult, Shape.keys_eachField])
  rw [hshape, Shape.render, object, enclosed, ← h]
  by_cases he : keyed members = []
  · have hempty : (Shape.buildTrees known (fun _ _ => none) (targetNamespace? members)
        members).result = [] := by
      rw [hresult, eachField, he]
      rfl
    have hblock : Shape.block (Shape.lines .asNeeded []) = "\x7b\x7d" := rfl
    rw [hempty, he, hblock, withMargin_of_oneLine _ (by decide)]
    rfl
  · rw [if_neg (by simpa using he), withMargin_block]
    obtain ⟨entry, rest, he⟩ := List.exists_cons_of_ne_nil he
    rw [hresult, eachField, he, List.map_cons, Shape.lines_cons]
    simp [Outline.memberLines_ne_nil]

end Members

mutual

/-- The lines of a member, moved to a depth, are those of its field one step further. -/
theorem map_memberLines (known : KnownEnums) {targetNamespace : Option String}
    (ht : ∀ uri, targetNamespace = some uri → OneLine uri) {key : String} (hk : OneLine key)
    (depth : Nat) : ∀ {tree : FieldTree}, OneLineLabel tree →
      (∀ branch ∈ tree.branches key, Tidy branch.fields) →
      (Shape.memberLines .asNeeded (fieldName key) (Shape.buildTree known (fun _ _ => none)
          targetNamespace (isArrayKey key) (fieldName key) tree).result).map
          (withMargin (margin depth)) =
        (comment? targetNamespace tree).toList ++
          [Shape.propertyName .asNeeded (fieldName key) ++ ": " ++
            value known targetNamespace (depth + 1) (isArrayKey key) tree ++ ";"]
  | .leaf _, hl, _ => map_memberLines_leaf ht hk hl _ depth
  | .branch members, _, hb => by
    have hmembers : Tidy members := hb _ (List.mem_append_right _ (List.mem_singleton.2 rfl))
    refine map_memberLines_branch hk (withMargin_render_of_lines hmembers.names ?_) _
    exact onLines_lines known (fun _ => hmembers.oneLine_targetNamespace) (depth + 1) hmembers.keys
      hmembers.labels fun branch hm => hb branch (List.mem_append_left _ hm)

theorem onLines_lines (known : KnownEnums) {targetNamespace : Option String}
    (ht : ∀ uri, targetNamespace = some uri → OneLine uri) (depth : Nat) :
    ∀ {members : List (String × FieldTree)},
      (∀ entry ∈ members, isMetadata entry.1 = false → OneLine entry.1) →
      (∀ entry ∈ members, isMetadata entry.1 = false → OneLineLabel entry.2) →
      (∀ branch ∈ allBranches members, Tidy branch.fields) →
      onLines (depth + 1) ((Shape.lines .asNeeded (Shape.buildTrees known (fun _ _ => none)
          targetNamespace members).result).map (withMargin (margin depth))) =
        fields known targetNamespace (depth + 1) members
  | [], _, _, _ => rfl
  | (key, tree) :: members, hk, hl, hb => by
    obtain ⟨hkey, hk⟩ := List.forall_mem_cons.1 hk
    obtain ⟨hlabel, hl⟩ := List.forall_mem_cons.1 hl
    by_cases hm : isMetadata key = true
    · rw [allBranches_cons_metadata hm] at hb
      rw [Shape.buildTrees_cons_metadata known _ _ hm, fields, if_pos hm]
      exact onLines_lines known ht depth hk hl hb
    · have hm : isMetadata key = false := by simpa using hm
      rw [allBranches_cons_field hm] at hb
      have hfirst := map_memberLines known ht (hkey hm) depth (hlabel hm)
        fun branch hmem => hb branch (List.mem_append_left _ hmem)
      have hrest := onLines_lines known ht depth hk hl
        fun branch hmem => hb branch (List.mem_append_right _ hmem)
      rw [Shape.buildTrees_cons_field known _ _ hm, Shape.lines_cons, List.map_append,
        onLines_append, hfirst, hrest, fields, if_neg (by simp [hm])]

end

/-- **The text of an object, moved to a depth, is the object written at the depth.** -/
theorem withMargin_render (known : KnownEnums) {members : Fields}
    (h : ∀ inner ∈ objects members, Tidy inner) (depth : Nat) :
    withMargin (margin depth) (Shape.render .asNeeded (Shape.inline known members)) =
      object known depth members := by
  have hmembers := h members (mem_objects_self members)
  refine withMargin_render_of_lines hmembers.names ?_
  exact onLines_lines known (fun _ => hmembers.oneLine_targetNamespace) depth hmembers.keys
    hmembers.labels fun branch hm => h _ (fields_mem_objects hm)

/-- **The text of an object of fields is laid out in one walk.** -/
theorem render_eq_object (known : KnownEnums) {members : Fields}
    (h : ∀ inner ∈ objects members, Tidy inner) :
    Shape.render .asNeeded (Shape.inline known members) = object known 0 members := by
  rw [← withMargin_render known h 0]
  exact (withMargin_empty _).symm

/-- Items with a comment and with an object in them, and a note without fields. -/
theorem render_eq_object_items :
    let members : Fields := [("items[]", .branch [("targetNamespace", .leaf "urn:shop"),
      ("unit", .leaf "unit|tns:Unit|kg,g"), ("box", .branch [("full size", .leaf "xs:int")])]),
      ("note", .branch [])]
    Shape.render .asNeeded (Shape.inline [] members) =
      joinWith "\n" ["\x7b", "    items: Array<\x7b", "        /** urn:shop#unit(kg,g) */",
        "        unit: \"kg\" | \"g\";", "        box: \x7b", "            \"full size\": number;",
        "        \x7d;", "    \x7d>;", "    note: \x7b\x7d;", "\x7d"] := by
  intro members
  have htidy : ∀ inner ∈ objects members, Tidy inner := by decide +kernel
  rw [render_eq_object [] htidy]
  decide +kernel

end SoapTypes.Layout
