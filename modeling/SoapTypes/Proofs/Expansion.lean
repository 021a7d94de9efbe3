import Mathlib.Logic.Function.Iterate
import SoapTypes.Proofs.Outline

/-!
# Expanding references

How a reader of finished declarations puts the bodies of shared shapes in the place of references to
them. A reference stands as the value of a property, alone or as the element of an array; its body
comes in its place, moved to the right as far as the property is.

* `Expansion.expand` replaces all references of a text once.
* `Expansion.Unfolds`: doing so again and again meets declared names only and comes to an end.
* `Expansion.readLine_reference`: the lines that are read as references are those that were written
  as references.
-/

namespace SoapTypes.Expansion

open Text

/-! ### Reading references -/

/-- What stands between a front and an end, if both are there and do not overlap. -/
def between (front behind cs : List Char) : Option (List Char) :=
  if front <+: cs ∧ behind <:+ cs.drop front.length then
    some ((cs.drop front.length).take (cs.length - front.length - behind.length))
  else none

theorem between_eq_some {front behind cs middle : List Char} :
    between front behind cs = some middle ↔ cs = front ++ (middle ++ behind) := by
  unfold between
  constructor
  · intro h
    split at h
    · rename_i hc
      obtain ⟨⟨rest, rfl⟩, hs⟩ := hc
      rw [List.drop_left] at hs h
      obtain ⟨inner, rfl⟩ := hs
      have hl : (front ++ (inner ++ behind)).length - front.length - behind.length =
          inner.length := by
        simp only [List.length_append]
        omega
      rw [hl, List.take_left, Option.some.injEq] at h
      rw [h]
    · cases h
  · rintro rfl
    have hl : (front ++ (middle ++ behind)).length - front.length - behind.length =
        middle.length := by
      simp only [List.length_append]
      omega
    rw [List.drop_left, if_pos ⟨List.prefix_append _ _, List.suffix_append _ _⟩, hl,
      List.take_left]

/-- Read a value as a reference to a shape of a namespace: whether it is the element of an array,
and the field name. A suffix `[]` and a wrapper `Array<…>` mean the same. -/
def readReference (ns value : String) : Option (Bool × String) :=
  match between ("Array<" ++ ns ++ ".I").toList ['>', ';'] value.toList with
  | some name => some (true, String.ofList name)
  | none =>
    match between (ns ++ ".I").toList ['[', ']', ';'] value.toList with
    | some name => some (true, String.ofList name)
    | none =>
      (between (ns ++ ".I").toList [';'] value.toList).map fun name => (false, String.ofList name)

/-- The spaces in front of a line. -/
def margin (line : String) : String := String.ofList (line.toList.takeWhile fun c => c == ' ')

/-- A line without the spaces in front of it. -/
def afterMargin (line : String) : String := String.ofList (line.toList.dropWhile fun c => c == ' ')

/-- A line that gives a property a reference as its value. -/
structure ReferenceLine where
  margin : String
  property : String
  array : Bool
  name : String

/-- Read a line. -/
def readLine (ns line : String) : Option ReferenceLine := do
  let (property, value) ← Shape.splitProperty (afterMargin line)
  let (array, name) ← readReference ns value
  return ⟨margin line, property, array, name⟩

/-- The names that are referenced in some lines. -/
def names (ns : String) (lines : List String) : List String :=
  lines.filterMap fun line => (readLine ns line).map ReferenceLine.name

/-- The names that are referenced in a text. -/
def references (ns text : String) : List String := names ns (linesOf text)

/-! ### Putting bodies in their place -/

/-- The bodies that are declared, by field name. -/
abbrev Bodies := String → Option String

/-- A reference with a body in its place. -/
def ReferenceLine.writtenOut (line : ReferenceLine) (body : String) : String :=
  line.margin ++ line.property ++ ": " ++
    (Outline.opening line.array ++ (withMargin line.margin body ++ Outline.closing line.array))

section Expand

variable (ns : String) (bodies : Bodies)

/-- Replace the reference of a line, if it has one that is declared. -/
def expandLine (line : String) : String :=
  match readLine ns line with
  | none => line
  | some reference =>
    match bodies reference.name with
    | none => line
    | some body => reference.writtenOut body

/-- Replace every reference of a text once. -/
def expand (text : String) : String := ofLines ((linesOf text).map (expandLine ns bodies))

/-- Replace every reference of some lines once. -/
def expandLines (lines : List String) : List String :=
  lines.flatMap fun line => linesOf (expandLine ns bodies line)

/-- Replacing references again and again, only declared names are met, and at last no reference is
left and the text is `result`. -/
structure Unfolds (text result : String) : Prop where
  declared (k : Nat) :
    ∀ name ∈ references ns ((expand ns bodies)^[k] text), (bodies name).isSome = true
  ends : ∃ k, (expand ns bodies)^[k] text = result ∧ references ns result = []

variable {ns bodies}

theorem linesOf_expand (text : String) :
    linesOf (expand ns bodies text) = expandLines ns bodies (linesOf text) :=
  linesOf_ofLines_map _ (linesOf_ne_nil text)

theorem linesOf_iterate_expand (text : String) (k : Nat) :
    linesOf ((expand ns bodies)^[k] text) = (expandLines ns bodies)^[k] (linesOf text) := by
  induction k with
  | zero => rfl
  | succ k ih => rw [Function.iterate_succ_apply', Function.iterate_succ_apply', linesOf_expand, ih]

@[simp] theorem names_append (lines others : List String) :
    names ns (lines ++ others) = names ns lines ++ names ns others := List.filterMap_append

@[simp] theorem expandLines_append (lines others : List String) :
    expandLines ns bodies (lines ++ others) =
      expandLines ns bodies lines ++ expandLines ns bodies others := List.flatMap_append

/-! ### Lines that move to the right -/

theorem margin_indent (line : String) : margin (indentStep ++ line) = indentStep ++ margin line := by
  rw [← String.toList_inj]
  simp [margin, indentStep, String.toList_append]

theorem afterMargin_indent (line : String) :
    afterMargin (indentStep ++ line) = afterMargin line := by
  rw [← String.toList_inj]
  simp [afterMargin, indentStep, String.toList_append]

theorem readLine_indent (line : String) :
    readLine ns (indentStep ++ line) =
      (readLine ns line).map fun r => { r with margin := indentStep ++ r.margin } := by
  unfold readLine
  rw [margin_indent, afterMargin_indent]
  cases Shape.splitProperty (afterMargin line) with
  | none => rfl
  | some pair =>
    obtain ⟨property, value⟩ := pair
    cases h : readReference ns value <;> simp [h]

theorem names_map_indent (lines : List String) :
    names ns (lines.map (indentStep ++ ·)) = names ns lines := by
  unfold names
  rw [List.filterMap_map]
  refine List.filterMap_congr fun line _ => ?_
  rw [Function.comp_apply, readLine_indent, Option.map_map]
  rfl

/-- The parts of a reference stand on one line. -/
theorem oneLine_of_readLine {line : String} (h : OneLine line) {r : ReferenceLine}
    (hr : readLine ns line = some r) : OneLine r.margin ∧ OneLine r.property := by
  have hm : OneLine (margin line) := by
    intro hc
    rw [margin, String.toList_ofList] at hc
    exact h ((List.takeWhile_prefix _).isInfix.mem hc)
  have ha : OneLine (afterMargin line) := by
    intro hc
    rw [afterMargin, String.toList_ofList] at hc
    exact h ((List.dropWhile_suffix _).isInfix.mem hc)
  unfold readLine at hr
  cases hs : Shape.splitProperty (afterMargin line) with
  | none => simp [hs] at hr
  | some pair =>
    obtain ⟨property, value⟩ := pair
    cases hv : readReference ns value with
    | none => simp [hs, hv] at hr
    | some found =>
      simp only [hs, hv, Option.bind_eq_bind, Option.bind_some, Option.pure_def,
        Option.some.injEq] at hr
      subst hr
      refine ⟨hm, fun hc => ha ?_⟩
      rw [Shape.eq_of_splitProperty hs]
      simp [String.toList_append, hc]

/-- A line that moves to the right takes the body of its reference with it. -/
theorem expandLine_indent {line : String} (h : OneLine line) :
    expandLine ns bodies (indentStep ++ line) = indentStep ++ indent (expandLine ns bodies line) := by
  have hl : indentStep ++ line = indentStep ++ indent line := by rw [indent_of_single_line h]
  unfold expandLine
  rw [readLine_indent]
  cases hr : readLine ns line with
  | none => exact hl
  | some r =>
    obtain ⟨hm, hp⟩ := oneLine_of_readLine h hr
    simp only [Option.map_some]
    cases hb : bodies r.name with
    | none => exact hl
    | some body =>
      -- only the body can have several lines, and its margin grows with that of the line
      have ho : OneLine (Outline.opening r.array) ∧ OneLine (Outline.closing r.array) := by
        cases r.array <;> decide
      simp only [ReferenceLine.writtenOut, indent_append, indent_withMargin hm,
        indent_of_single_line hm, indent_of_single_line hp, indent_of_single_line ho.1,
        indent_of_single_line ho.2, String.append_assoc]
      rfl

theorem expandLines_map_indent {lines : List String} (h : ∀ l ∈ lines, OneLine l) :
    expandLines ns bodies (lines.map (indentStep ++ ·)) =
      (expandLines ns bodies lines).map (indentStep ++ ·) := by
  induction lines with
  | nil => rfl
  | cons line lines ih =>
    have hl := h line List.mem_cons_self
    simp only [expandLines, List.map_cons, List.flatMap_cons, List.map_append] at ih ⊢
    rw [expandLine_indent hl, linesOf_indent, ih fun l hm => h l (List.mem_cons_of_mem _ hm)]

theorem oneLine_of_mem_expandLines {lines : List String} {line : String}
    (h : line ∈ expandLines ns bodies lines) : OneLine line := by
  obtain ⟨other, -, hm⟩ := List.mem_flatMap.1 h
  exact oneLine_of_mem_linesOf hm

/-- Lines without references stay as they are. -/
theorem expandLines_of_names_eq_nil {lines : List String} (h : ∀ l ∈ lines, OneLine l)
    (hn : names ns lines = []) : expandLines ns bodies lines = lines := by
  induction lines with
  | nil => rfl
  | cons line lines ih =>
    have hl := h line List.mem_cons_self
    have hr : readLine ns line = none := by
      rw [names, List.filterMap_eq_nil_iff] at hn
      simpa using hn line List.mem_cons_self
    have ht : names ns lines = [] := by
      rw [names, List.filterMap_cons, hr] at hn
      exact hn
    have he : expandLine ns bodies line = line := by rw [expandLine, hr]
    rw [show expandLines ns bodies (line :: lines) =
      linesOf (expandLine ns bodies line) ++ expandLines ns bodies lines from rfl, he,
      linesOf_of_oneLine hl, ih (fun l hm => h l (List.mem_cons_of_mem _ hm)) ht]
    rfl

end Expand

/-! ### Lines of plain fields -/

/-- A line that begins with no space, no quote, no colon and no part of an identifier gives no
property a value. -/
theorem readLine_eq_none_of_head {ns line : String} {c : Char} {cs : List Char}
    (hl : line.toList = c :: cs) (hs : c ≠ ' ') (hq : c ≠ '"') (hi : isIdentifierPart c = false)
    (hc : c ≠ ':') : readLine ns line = none := by
  have ha : (afterMargin line).toList = c :: cs := by
    simp [afterMargin, hl, hs]
  unfold readLine
  rw [Shape.splitProperty_eq_none ha hq hi hc]
  rfl

section Plain

variable {ns : String}

/-- A value without a reference mark is no reference. -/
theorem readReference_eq_none {value : String} (h : ¬ referenceMark ns <:+: value.toList) :
    readReference ns value = none := by
  have hno : ∀ (pre : String) (behind : List Char),
      between (pre ++ ns ++ ".I").toList behind value.toList = none := by
    intro pre behind
    rw [Option.eq_none_iff_forall_ne_some]
    intro middle hm
    refine h ⟨pre.toList, 'I' :: (middle ++ behind), ?_⟩
    rw [between_eq_some.1 hm]
    simp [referenceMark, String.toList_append, List.append_assoc]
  have hempty := hno ""
  simp only [String.empty_append] at hempty
  rw [readReference, hno "Array<", hempty, hempty]
  rfl

/-- A namespace is no beginning of an array wrapper. -/
theorem namespace_append_ne (hns : PlainNamespace ns) (cs ds : List Char) :
    ns.toList ++ cs ≠ "Array<".toList ++ ds := by
  intro h
  have hl := hns.long
  have hm : '<' ∈ ns.toList := by
    have hg := congrArg (fun l => l[5]?) h
    simp only [List.getElem?_append_left hl] at hg
    exact List.mem_of_getElem? (hg.trans rfl)
  exact absurd (hns.parts _ hm) (by decide)

/-- A reference that stands alone is not read as one in an array wrapper. -/
theorem between_wrapper_eq_none (hns : PlainNamespace ns) (cs : List Char) :
    between ("Array<" ++ ns ++ ".I").toList ['>', ';'] (ns.toList ++ cs) = none := by
  rw [Option.eq_none_iff_forall_ne_some]
  intro middle hm
  refine namespace_append_ne hns cs (ns.toList ++ ".I".toList ++ (middle ++ ['>', ';'])) ?_
  simpa [String.toList_append, List.append_assoc] using between_eq_some.1 hm

/-- A reference to a name without an array mark is not read as one with an array suffix. -/
theorem between_suffix_eq_none (ns : String) {name : String} (hn : FieldTree.isArrayKey name = false) :
    between (ns ++ ".I").toList ['[', ']', ';'] (ns ++ ".I" ++ name ++ ";").toList = none := by
  rw [Option.eq_none_iff_forall_ne_some]
  intro middle hm
  have he := between_eq_some.1 hm
  simp only [String.toList_append, List.append_assoc, List.append_cancel_left_eq] at he
  have hc : name.toList ++ [';'] = (middle ++ ['[', ']']) ++ [';'] := by simpa using he
  have hk : FieldTree.isArrayKey name = true := by
    rw [FieldTree.isArrayKey, List.isSuffixOf_iff_suffix, List.append_cancel_right hc]
    exact List.suffix_append _ _
  rw [hn] at hk
  cases hk

/-- A reference that was written is read back. -/
theorem readReference_referenceText (hns : PlainNamespace ns) {array : Bool} {name : String}
    (ha : array = false → FieldTree.isArrayKey name = false) :
    readReference ns (Outline.referenceText array (ns ++ ".I" ++ name)) = some (array, name) := by
  unfold readReference Outline.referenceText
  cases array with
  | true =>
    unfold Shape.arrayOf
    by_cases hp : isPlainElement (ns ++ ".I" ++ name) = true
    · have hw := between_wrapper_eq_none hns (".I" ++ name ++ "[]" ++ ";").toList
      have hv : between (ns ++ ".I").toList ['[', ']', ';']
          (ns ++ ".I" ++ name ++ "[]" ++ ";").toList = some name.toList :=
        between_eq_some.2 (by simp [String.toList_append, List.append_assoc])
      simp only [String.toList_append, List.append_assoc] at hw hv
      simp only [hp, if_true, String.toList_append, List.append_assoc, hw, hv, String.ofList_toList]
    · have hv : between ("Array<" ++ ns ++ ".I").toList ['>', ';']
          ("Array<" ++ (ns ++ ".I" ++ name) ++ ">" ++ ";").toList = some name.toList :=
        between_eq_some.2 (by simp [String.toList_append, List.append_assoc])
      simp only [hp, if_true, Bool.false_eq_true, if_false, hv, String.ofList_toList]
  | false =>
    have hw := between_wrapper_eq_none hns (".I" ++ name ++ ";").toList
    have hb := between_suffix_eq_none ns (ha rfl)
    have hv : between (ns ++ ".I").toList [';'] (ns ++ ".I" ++ name ++ ";").toList =
        some name.toList :=
      between_eq_some.2 (by simp [String.toList_append, List.append_assoc])
    simp only [String.toList_append, List.append_assoc] at hw hb hv
    simp only [Bool.false_eq_true, if_false, String.toList_append, List.append_assoc, hw, hb, hv,
      Option.map_some, String.ofList_toList]

example : readReference "BookTypes" "BookTypes.Iaddress[];" = some (true, "address") := by decide

example : readReference "BookTypes" "Array<BookTypes.Ihome address>;" =
    some (true, "home address") := by decide

theorem afterMargin_propertyLine {name : String} (hn : OneLine name) (value : String) :
    margin (Outline.propertyLine name value) = "" ∧
      afterMargin (Outline.propertyLine name value) = Outline.propertyLine name value := by
  obtain ⟨c, cs, hc, hh⟩ := Outline.exists_head_propertyLine hn value
  have hs : (c == ' ') = false := by
    rcases hh with rfl | hh
    · decide
    · by_contra hne
      obtain rfl : c = ' ' := by simpa using hne
      exact absurd hh (by decide)
  constructor
  · simp [margin, hc, hs]
  · rw [← String.toList_inj]
    simp [afterMargin, hc, hs]

theorem readLine_propertyLine {name : String} (hn : OneLine name) (value : String) :
    readLine ns (Outline.propertyLine name value) =
      (readReference ns value).map fun found =>
        ⟨"", Shape.propertyName .asNeeded name, found.1, found.2⟩ := by
  obtain ⟨hm, ha⟩ := afterMargin_propertyLine hn value
  unfold readLine
  rw [hm, ha, Outline.propertyLine, Shape.splitProperty_propertyName hn]
  cases h : readReference ns value <;> simp [h]

/-- The line of a reference is read as the reference that it is. -/
theorem readLine_reference (hns : PlainNamespace ns) {array : Bool} {name : String}
    (hn : OneLine name) (ha : array = false → FieldTree.isArrayKey name = false) :
    readLine ns (Outline.propertyLine name
        (Outline.referenceText array (ns ++ ".I" ++ name))) =
      some ⟨"", Shape.propertyName .asNeeded name, array, name⟩ := by
  rw [readLine_propertyLine hn, readReference_referenceText hns ha]
  rfl

/-- The line of a value without a reference mark is read as no reference. -/
theorem readLine_eq_none {name value : String} (hn : OneLine name)
    (h : ¬ referenceMark ns <:+: value.toList) :
    readLine ns (Outline.propertyLine name value) = none := by
  rw [readLine_propertyLine hn, readReference_eq_none h]
  rfl

end Plain

end SoapTypes.Expansion
