import Mathlib.Data.List.DropRight
import SoapTypes.Proofs.LeafTexts
import SoapTypes.Proofs.Literals
import SoapTypes.Schema.Declaration

/-!
# Values between quotes

The values of facet data and the values of enumerations are written between double quotes as they
are. What a reader takes from the written text is the value again exactly if no character of the
value has a meaning of its own between quotes.

* `Lexis.ReadsUnion` and `Lexis.ReadsMember`: how unions of literals and members of enumerations are
  read, given the classes of characters of the reader.
* `Lexis.readsUnion_iff` and `Lexis.readsMember_iff`: which of the written ones are read back.
* `Lexis.reads_values_iff` says it for leaves and for enumeration nodes.
-/

namespace SoapTypes

open Text Literal

/-- The characters that a reader takes for blanks, and for the beginnings and the parts of
identifiers. Beyond ASCII these are tables that grow, and nothing here depends on them. -/
structure Lexis where
  blank : Char → Bool
  start : Char → Bool
  part : Char → Bool
  blank_ascii : ∀ c, c.toNat < 0x80 → blank c = (c == ' ' || ('\t' ≤ c && c ≤ '\r'))
  start_ascii : ∀ c, c.toNat < 0x80 → start c = isIdentifierStart c
  part_ascii : ∀ c, c.toNat < 0x80 → part c = isIdentifierPart c
  part_of_start : ∀ c, start c = true → part c = true
  not_blank_of_part : ∀ c, part c = true → blank c = false

namespace Lexis

variable (lexis : Lexis)

/-- What may stand between two words: blanks. Comments are not skipped. -/
def IsGap (gap : List Char) : Prop := ∀ c ∈ gap, lexis.blank c = true

/-- An identifier: a beginning and any number of parts. -/
def isIdentifier : List Char → Bool
  | [] => false
  | c :: cs => lexis.start c && cs.all lexis.part

/-- The name of a member: an identifier or a literal. -/
def IsName (name : List Char) : Prop :=
  lexis.isIdentifier name = true ∨ ∃ read, ReadsLiteral name read []

/-- A text without the blanks at its ends. -/
def trim (cs : List Char) : List Char := (cs.dropWhile lexis.blank).rdropWhile lexis.blank

/-- Reading a union of literals: the text, the units of each literal, and what stands behind the
union. -/
inductive ReadsUnion : List Char → List (List Nat) → List Char → Prop
  | last {cs rest : List Char} {read : List Nat} (h : ReadsLiteral cs read rest) :
      ReadsUnion cs [read] rest
  | more {cs gap gap' behind rest : List Char} {read : List Nat} {others : List (List Nat)}
      (hg : lexis.IsGap gap) (hg' : lexis.IsGap gap')
      (h : ReadsLiteral cs read (gap ++ '|' :: (gap' ++ behind)))
      (ho : ReadsUnion behind others rest) : ReadsUnion cs (read :: others) rest

/-- Reading the type of a leaf, which ends in a semicolon, as a union of literals or an array of
such a union. -/
def ReadsLeaf (array : Bool) (type : String) (values : List (List Nat)) : Prop :=
  if array then
    ∃ cs, type.toList = "Array<".toList ++ cs ∧ lexis.ReadsUnion cs values ">;".toList
  else lexis.ReadsUnion type.toList values ";".toList

/-- Reading a member of an enumeration, which ends in a comma: a name, an equals sign and a literal,
with blanks around them. -/
inductive ReadsMember : List Char → List Nat → Prop
  | intro {gap name gap' gap'' initializer : List Char} {read : List Nat} (hg : lexis.IsGap gap)
      (hn : lexis.IsName name) (hg' : lexis.IsGap gap') (hg'' : lexis.IsGap gap'')
      (hi : ReadsLiteral initializer read [',']) :
      ReadsMember (gap ++ name ++ gap' ++ '=' :: (gap'' ++ initializer)) read

/-! ### Characters -/

variable {lexis}

@[simp] theorem blank_space : lexis.blank ' ' = true := lexis.blank_ascii ' ' (by decide)

@[simp] theorem blank_quote : lexis.blank '"' = false := lexis.blank_ascii '"' (by decide)

@[simp] theorem blank_bar : lexis.blank '|' = false := lexis.blank_ascii '|' (by decide)

@[simp] theorem blank_equals : lexis.blank '=' = false := lexis.blank_ascii '=' (by decide)

@[simp] theorem part_equals : lexis.part '=' = false := lexis.part_ascii '=' (by decide)

theorem IsGap.space : lexis.IsGap [' '] := by simp [IsGap]

theorem IsGap.indentStep : lexis.IsGap indentStep.toList := by
  rw [show Text.indentStep.toList = [' ', ' ', ' ', ' '] by decide]
  simp [IsGap]

theorem IsGap.append {gap gap' : List Char} (h : lexis.IsGap gap) (h' : lexis.IsGap gap') :
    lexis.IsGap (gap ++ gap') := List.forall_mem_append.2 ⟨h, h'⟩

theorem IsGap.notMem {gap : List Char} {c : Char} (h : lexis.IsGap gap)
    (hc : lexis.blank c = false) : c ∉ gap := by
  intro hm
  rw [h c hm] at hc
  cases hc

theorem part_of_isIdentifier {name : List Char} (h : lexis.isIdentifier name = true) :
    ∀ c ∈ name, lexis.part c = true := by
  cases name with
  | nil => cases h
  | cons c cs =>
    simp only [isIdentifier, Bool.and_eq_true, List.all_eq_true] at h
    exact List.forall_mem_cons.2 ⟨lexis.part_of_start c h.1, h.2⟩

/-! ### Blanks at the ends -/

theorem exists_trim (cs : List Char) :
    ∃ gap gap', lexis.IsGap gap ∧ lexis.IsGap gap' ∧ cs = gap ++ lexis.trim cs ++ gap' := by
  refine ⟨cs.takeWhile lexis.blank, (cs.dropWhile lexis.blank).rtakeWhile lexis.blank,
    fun c hc => List.mem_takeWhile_imp hc, fun c hc => List.mem_rtakeWhile_imp hc, ?_⟩
  rw [trim, List.append_assoc, List.rdropWhile_append_rtakeWhile, List.takeWhile_append_dropWhile]

/-- Blanks at the ends make no difference. -/
theorem trim_append {gap gap' : List Char} (h : lexis.IsGap gap) (h' : lexis.IsGap gap')
    (cs : List Char) : lexis.trim (gap ++ cs ++ gap') = lexis.trim cs := by
  have hfront : (gap ++ cs ++ gap').dropWhile lexis.blank = (cs ++ gap').dropWhile lexis.blank := by
    rw [List.append_assoc, List.dropWhile_append_of_pos h]
  have hback : ∀ ds, (ds ++ gap').rdropWhile lexis.blank = ds.rdropWhile lexis.blank := by
    intro ds
    rw [List.rdropWhile, List.reverse_append,
      List.dropWhile_append_of_pos fun c hc => h' c (List.mem_reverse.1 hc)]
    rfl
  rw [trim, hfront, trim, List.dropWhile_append]
  split
  · rename_i he
    rw [List.isEmpty_iff.1 he, List.dropWhile_eq_nil_iff.2 h']
  · exact hback _

theorem trim_of_isIdentifier {name : List Char} (h : lexis.isIdentifier name = true) :
    lexis.trim name = name := by
  have hp := part_of_isIdentifier h
  have hb : ∀ c ∈ name, ¬ lexis.blank c = true := by
    intro c hc
    simp [lexis.not_blank_of_part c (hp c hc)]
  have hfront : name.dropWhile lexis.blank = name := by
    cases name with
    | nil => rfl
    | cons c cs => exact List.dropWhile_cons_of_neg (hb c List.mem_cons_self)
  rw [trim, hfront]
  exact List.rdropWhile_eq_self_iff.2 fun hl => hb _ (List.getLast_mem hl)

/-! ### Unions -/

theorem ReadsUnion.exists_quote {cs rest : List Char} {values : List (List Nat)}
    (h : lexis.ReadsUnion cs values rest) : ∃ behind, cs = '"' :: behind := by
  cases h with
  | last h =>
    cases h
    exact ⟨_, rfl⟩
  | more _ _ h _ =>
    cases h
    exact ⟨_, rfl⟩

/-- Two texts that are equal begin with the same blanks. -/
theorem IsGap.append_inj {gap gap' cs cs' : List Char} {c c' : Char} (h : lexis.IsGap gap)
    (h' : lexis.IsGap gap') (hc : lexis.blank c = false) (hc' : lexis.blank c' = false)
    (he : gap ++ c :: cs = gap' ++ c' :: cs') : c :: cs = c' :: cs' := by
  have hd := congrArg (List.dropWhile lexis.blank) he
  rw [List.dropWhile_append_of_pos h, List.dropWhile_append_of_pos h'] at hd
  rwa [List.dropWhile_cons_of_neg (by simp [hc]), List.dropWhile_cons_of_neg (by simp [hc'])] at hd

theorem exists_quote_literalUnion (values : List String) (behind : List Char) :
    ∃ cs, (Shape.literalUnion values).toList ++ behind = '"' :: cs := by
  simp [Shape.literalUnion, String.toList_append]

theorem toList_literalUnion_singleton (value : String) (behind : List Char) :
    (Shape.literalUnion [value]).toList ++ behind =
      '"' :: (value.toList ++ '"' :: behind) := by
  simp [Shape.literalUnion, String.toList_append]

theorem toList_literalUnion_cons (value next : String) (values : List String)
    (behind : List Char) :
    (Shape.literalUnion (value :: next :: values)).toList ++ behind =
      '"' :: (value.toList ++ '"' :: ([' '] ++ '|' :: ([' '] ++
        ((Shape.literalUnion (next :: values)).toList ++ behind)))) := by
  simp [Shape.literalUnion, String.toList_append]

/-- **A written union is read back exactly if all its values are verbatim.** -/
theorem readsUnion_iff {values : List String} (hne : values ≠ []) {behind rest : List Char} :
    lexis.ReadsUnion ((Shape.literalUnion values).toList ++ behind)
        (values.map fun value => units value.toList) rest ↔
      (∀ value ∈ values, Verbatim value) ∧ rest = behind := by
  obtain ⟨value, values, rfl⟩ := List.exists_cons_of_ne_nil hne
  clear hne
  induction values generalizing value with
  | nil =>
    rw [toList_literalUnion_singleton, List.forall_mem_singleton]
    constructor
    · intro h
      cases h with
      | last h =>
        cases h with
        | quoted h => exact readsRest_iff.1 h
      | more _ _ _ ho => cases ho
    · intro h
      exact .last (.quoted (readsRest_iff.2 h))
  | cons next values ih =>
    rw [toList_literalUnion_cons, List.forall_mem_cons, and_assoc, ← ih next]
    constructor
    · intro h
      cases h with
      | @more cs gap gap' after rest read others hg hg' h ho =>
        cases h with
        | quoted h =>
          obtain ⟨hv, he⟩ := readsRest_iff.1 h
          refine ⟨hv, ?_⟩
          -- the blanks on both sides of the bar are the written ones
          have hbar := hg.append_inj .space blank_bar blank_bar he
          obtain ⟨after, rfl⟩ := ho.exists_quote
          have hgap := (List.cons.inj hbar).2
          obtain ⟨written, hw⟩ := exists_quote_literalUnion (next :: values) behind
          rw [hw] at hgap ⊢
          rwa [← hg'.append_inj .space blank_quote blank_quote hgap]
    · rintro ⟨hv, ho⟩
      exact .more .space .space (.quoted (readsRest_iff.2 ⟨hv, rfl⟩)) ho

/-! ### Members of enumerations -/

/-- Two texts with a quote in each that are equal are split at the same quote, or one of them is
split at an earlier one. -/
theorem split_cases {front back front' back' : List Char}
    (h : front ++ '"' :: back = front' ++ '"' :: back') :
    (front = front' ∧ back = back') ∨
      (∃ between, front' = front ++ '"' :: between ∧ back = between ++ '"' :: back') ∨
      ∃ between, front = front' ++ '"' :: between ∧ back' = between ++ '"' :: back := by
  rcases List.append_eq_append_iff.1 h with ⟨between, hf, hb⟩ | ⟨between, hf, hb⟩
  · cases between with
    | nil => exact .inl ⟨by simpa using hf.symm, (List.cons.inj hb).2⟩
    | cons c between =>
      obtain ⟨rfl, hback⟩ := List.cons.inj hb
      exact .inr (.inl ⟨between, hf, hback⟩)
  · cases between with
    | nil => exact .inl ⟨by simpa using hf, (List.cons.inj hb).2.symm⟩
    | cons c between =>
      obtain ⟨rfl, hback⟩ := List.cons.inj hb
      exact .inr (.inr ⟨between, hf, hback⟩)

/-- Of all quotes in the line of an enumeration value, only the written one can open a literal that
is the value up to the comma, and then the value is verbatim. Behind an earlier quote a literal would
end at the written one at the latest, and behind a later one too little is left. -/
theorem initializer_unique {front before body : List Char} {value : String}
    (he : front ++ '"' :: body = (before ++ [' ']) ++ '"' :: (value.toList ++ ['"', ',']))
    (h : ReadsRest body (units value.toList) [',']) : front = before ++ [' '] ∧ Verbatim value := by
  rcases split_cases he with ⟨hfront, rfl⟩ | ⟨between, hfront, rfl⟩ | ⟨between, -, hback⟩
  · exact ⟨hfront, (readsRest_iff.1 h).1⟩
  · have hlast : between.getLast? ≠ some '\\' := by
      intro hl
      have hs := congrArg List.getLast? hfront
      simp [List.getLast?_append, List.getLast?_cons, hl] at hs
    have hlen := h.length_le rfl hlast
    simp at hlen
  · obtain ⟨cs, rfl, hl⟩ := h.exists_append
    have hvalue : value.toList = between ++ '"' :: cs := by
      have hback : value.toList ++ ['"', ','] = (between ++ '"' :: cs) ++ ['"', ','] := by
        simpa using hback
      exact List.append_cancel_right hback
    rw [hvalue, units_append, units_cons, List.length_append, List.length_append] at hl
    have hq := List.length_pos_of_ne_nil (utf16Units_ne_nil '"')
    omega

/-- The text of the line of an enumeration value. -/
def memberLine (value : String) : String := indentStep ++ value ++ " = \"" ++ value ++ "\","

theorem toList_memberLine (value : String) :
    (memberLine value).toList = (indentStep.toList ++ value.toList ++ [' ']) ++
      '=' :: ([' '] ++ '"' :: (value.toList ++ ['"', ','])) := by
  simp [memberLine, String.toList_append]

/-- A name in front of the equals sign of a line is an identifier if the value of the line has no
quote: a literal would have one, and there is none. -/
theorem isIdentifier_of_front {gap name gap' gap'' cs : List Char} (hn : lexis.IsName name)
    (hq : '"' ∉ cs)
    (he : gap ++ name ++ gap' ++ '=' :: gap'' =
      indentStep.toList ++ cs ++ [' '] ++ '=' :: [' ']) : lexis.isIdentifier name = true := by
  apply hn.resolve_right
  rintro ⟨read, hread⟩
  have hquote : '"' ∈ gap ++ name ++ gap' ++ '=' :: gap'' := by
    cases hread
    simp
  have hindent : '"' ∉ indentStep.toList := by decide
  rw [he] at hquote
  simp [hq, hindent] at hquote

/-- An identifier in front of the equals sign of a line is the value of the line, apart from
blanks. -/
theorem trim_eq_of_front {gap name gap' gap'' cs : List Char} (hg : lexis.IsGap gap)
    (hg' : lexis.IsGap gap') (hg'' : lexis.IsGap gap'') (hn : lexis.isIdentifier name = true)
    (he : gap ++ name ++ gap' ++ '=' :: gap'' =
      indentStep.toList ++ cs ++ [' '] ++ '=' :: [' ']) : lexis.trim cs = name := by
  have hname : '=' ∉ name := by
    intro hm
    have hp := part_of_isIdentifier hn _ hm
    simp at hp
  have hfront : '=' ∉ gap ++ name ++ gap' := by
    simp [hg.notMem blank_equals, hname, hg'.notMem blank_equals]
  obtain ⟨hsplit, -⟩ :=
    (List.append_cons_inj_of_notMem hfront (hg''.notMem blank_equals)).1 he
  have htrim := congrArg lexis.trim hsplit
  rw [trim_append hg hg', trim_append .indentStep .space, trim_of_isIdentifier hn] at htrim
  exact htrim.symm

/-- **The line of an enumeration value is read back exactly if the value is verbatim and, apart from
blanks at its ends, an identifier.** -/
theorem readsMember_iff {value : String} :
    lexis.ReadsMember (memberLine value).toList (units value.toList) ↔
      lexis.isIdentifier (lexis.trim value.toList) = true ∧ Verbatim value := by
  rw [toList_memberLine]
  constructor
  · intro h
    generalize hline : indentStep.toList ++ value.toList ++ [' '] ++
      '=' :: ([' '] ++ '"' :: (value.toList ++ ['"', ','])) = line at h
    cases h with
    | @intro gap name gap' gap'' initializer read hg hn hg' hg'' hi =>
      cases hi with
      | @quoted body _ _ hi =>
        have hbefore : indentStep.toList ++ value.toList ++ [' '] ++ '=' :: [' '] =
            (indentStep.toList ++ value.toList ++ [' ', '=']) ++ [' '] := by simp
        have he : (gap ++ name ++ gap' ++ '=' :: gap'') ++ '"' :: body =
            ((indentStep.toList ++ value.toList ++ [' ', '=']) ++ [' ']) ++
              '"' :: (value.toList ++ ['"', ',']) := by
          simpa using hline.symm
        obtain ⟨hfront, hv⟩ := initializer_unique he hi
        have hq : '"' ∉ value.toList := fun hm => (isVerbatim_iff.1 (hv _ hm)).1 rfl
        have hname := isIdentifier_of_front hn hq (hfront.trans hbefore.symm)
        rw [trim_eq_of_front hg hg' hg'' hname (hfront.trans hbefore.symm)]
        exact ⟨hname, hv⟩
  · rintro ⟨hi, hv⟩
    obtain ⟨gap, gap', hg, hg', hvalue⟩ := lexis.exists_trim value.toList
    have hfront : indentStep.toList ++ value.toList ++ [' '] =
        (indentStep.toList ++ gap) ++ lexis.trim value.toList ++ (gap' ++ [' ']) := by
      conv_lhs => rw [hvalue]
      simp
    rw [hfront]
    exact .intro (.append .indentStep hg) (.inl hi) (.append hg' .space) .space
      (.quoted (readsRest_iff.2 ⟨hv, rfl⟩))

/-! ### Leaves and enumeration nodes -/

theorem readsLeaf_iff {values : List String} (hne : values ≠ []) (array : Bool) :
    lexis.ReadsLeaf array (Shape.wrapped array (Shape.literalUnion values) ++ ";")
        (values.map fun value => units value.toList) ↔
      ∀ value ∈ values, Verbatim value := by
  cases array with
  | false =>
    show lexis.ReadsUnion (Shape.literalUnion values ++ ";").toList _ ";".toList ↔ _
    rw [String.toList_append, readsUnion_iff hne, and_iff_left rfl]
  | true =>
    have ht : (Shape.wrapped true (Shape.literalUnion values) ++ ";").toList =
        "Array<".toList ++ ((Shape.literalUnion values).toList ++ ">;".toList) := by
      simp [Shape.wrapped, String.toList_append]
    constructor
    · rintro ⟨cs, hcs, h⟩
      obtain rfl := List.append_cancel_left (ht.symm.trans hcs)
      exact ((readsUnion_iff hne).1 h).1
    · intro hv
      exact ⟨_, ht, (readsUnion_iff hne).2 ⟨hv, rfl⟩⟩

theorem enumerationLine_eq {node : Schema.Node} {value : String}
    (h : node.attr "value" = .text value) : node.enumerationLine = memberLine value := by
  rw [Schema.Node.enumerationLine, h]
  rfl

/-- **Which values are read back from what is written for them.** For every reader:

* the lines of a leaf without a primitive and with some literals end in its property name and a
  type, and this type is read as the union, or the array of the union, of exactly these literals in
  their order if and only if all of them are verbatim;
* an enumeration node with a text as its value leaves a text exactly if it restricts strings, and
  this text is read as a member with exactly the value if and only if the value is verbatim and,
  apart from blanks at its ends, an identifier. -/
theorem reads_values_iff (lexis : Lexis) :
    (∀ known targetNamespace label,
      Primitive.ofSchemaType? (LeafLabel.parse label).localBaseType = none →
      Shape.leafLiterals known targetNamespace label ≠ [] →
      ∀ array quoting property, ∃ type,
        Shape.memberLines quoting property
            (Shape.resolveLeaf known targetNamespace array label) =
          (Shape.leafComment targetNamespace label).toList ++
            [Shape.propertyName quoting property ++ ": " ++ type] ∧
        (lexis.ReadsLeaf array type
            ((Shape.leafLiterals known targetNamespace label).map fun v => units v.toList) ↔
          ∀ value ∈ Shape.leafLiterals known targetNamespace label, Verbatim value)) ∧
    ∀ (node : Schema.Node) value, node.kind = .enumeration → node.attr "value" = .text value →
      ∀ base, ∃ text, (node.declare base).outcome = .ok text ∧
        (text ≠ "" ↔ base = some "string") ∧
        (text ≠ "" →
          (lexis.ReadsMember text.toList (units value.toList) ↔
            lexis.isIdentifier (lexis.trim value.toList) = true ∧ Verbatim value)) := by
  refine ⟨fun known targetNamespace label hp hl array quoting property => ?_,
    fun node value hk hv base => ?_⟩
  · refine ⟨_, Shape.memberLines_resolveLeaf .., ?_⟩
    rw [Shape.leafText_union hp hl]
    exact readsLeaf_iff hl array
  · have hline := enumerationLine_eq hv
    have hne : memberLine value ≠ "" := by simp [memberLine]
    obtain ⟨kind, tag, attributes, children⟩ := node
    cases hk
    by_cases hb : base = some "string"
    · refine ⟨memberLine value, ?_, iff_of_true hne hb, fun _ => readsMember_iff⟩
      rw [Schema.Node.declare, if_pos hb, hline]
      rfl
    · refine ⟨"", ?_, iff_of_false (by simp) hb, fun h => absurd rfl h⟩
      rw [Schema.Node.declare, if_neg hb]
      rfl

theorem dollar_le_of_isIdentifierPart {c : Char} (h : isIdentifierPart c = true) : '$' ≤ c := by
  simp only [isIdentifierPart, isIdentifierStart, isLetter, isAsciiDigit, Bool.or_eq_true,
    Bool.and_eq_true, decide_eq_true_eq, beq_iff_eq] at h
  rcases h with (((h | h) | rfl) | rfl) | h
  · exact Char.le_trans (by decide) h.1
  · exact Char.le_trans (by decide) h.1
  · decide
  · decide
  · exact Char.le_trans (by decide) h.1

/-- A reader that knows nothing beyond ASCII. -/
def ascii : Lexis where
  blank c := c == ' ' || ('\t' ≤ c && c ≤ '\r')
  start := isIdentifierStart
  part := isIdentifierPart
  blank_ascii _ _ := rfl
  start_ascii _ _ := rfl
  part_ascii _ _ := rfl
  part_of_start c h := by simp [isIdentifierPart, h]
  not_blank_of_part c h := by
    have hc := dollar_le_of_isIdentifierPart h
    have hs : c ≠ ' ' := by
      rintro rfl
      exact absurd hc (by decide)
    have hr : ¬ c ≤ '\r' := fun hr => absurd (Char.le_trans hc hr) (by decide)
    simp [hs, hr]

/-- An enumeration node with a value. -/
def enumeration (value : String) : Schema.Node :=
  ⟨.enumeration, "enumeration", [(.text "value", .text value)], []⟩

/-- A value with a colon in an array, and a value that is an identifier. -/
theorem reads_values_iff_box :
    (∃ type,
      Shape.memberLines .asNeeded "unit" (Shape.resolveLeaf [] (some "urn:shop") true
          "Unit|tns:Unit|length,box: 12") =
        ["/** urn:shop#Unit(length,box: 12) */", "unit: " ++ type] ∧
      ascii.ReadsLeaf true type [units "box: 12".toList]) ∧
    ∃ text, ((enumeration "box").declare (some "string")).outcome = .ok text ∧
      ascii.ReadsMember text.toList (units "box".toList) := by
  obtain ⟨hleaf, hnode⟩ := reads_values_iff ascii
  constructor
  · obtain ⟨type, hlines, hread⟩ := hleaf [] (some "urn:shop") "Unit|tns:Unit|length,box: 12"
      (by decide) (by decide) true .asNeeded "unit"
    have hcomment : (Shape.leafComment (some "urn:shop") "Unit|tns:Unit|length,box: 12").toList =
        ["/** urn:shop#Unit(length,box: 12) */"] := by decide
    have hname : Shape.propertyName .asNeeded "unit" = "unit" := by decide
    rw [hcomment, hname] at hlines
    exact ⟨type, hlines, hread.2 (by decide)⟩
  · obtain ⟨text, ht, hne, hread⟩ := hnode (enumeration "box") "box" rfl rfl (some "string")
    exact ⟨text, ht, (hread (hne.2 rfl)).2 (by decide)⟩

/-- **Values that are not read back.** A quote in a value ends the literal, and a blank in a value
ends the name of the member. -/
theorem values_not_read :
    Shape.leafText [] none false "Kind|tns:Kind|say \"hi\",b" = "\"say \"hi\"\" | \"b\";" ∧
      ¬ ascii.ReadsLeaf false (Shape.leafText [] none false "Kind|tns:Kind|say \"hi\",b")
          [units "say \"hi\"".toList, units "b".toList] ∧
      ((enumeration "in stock").declare (some "string")).outcome =
        .ok "    in stock = \"in stock\"," ∧
      ¬ ascii.ReadsMember "    in stock = \"in stock\",".toList (units "in stock".toList) := by
  refine ⟨by decide, ?_, rfl, ?_⟩
  · intro h
    have hv : ∀ value ∈ ["say \"hi\"", "b"], Verbatim value :=
      (readsLeaf_iff (by simp) false).1 h
    exact absurd hv (by decide)
  · intro h
    have hv : ascii.isIdentifier (ascii.trim "in stock".toList) = true ∧ Verbatim "in stock" :=
      readsMember_iff.1 h
    exact absurd hv.1 (by decide)

end Lexis

end SoapTypes
