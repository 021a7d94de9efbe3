import Mathlib.Data.List.Basic
import SoapTypes.Shape.Basic

/-!
# Texts as lines

A text is the list of its lines with line breaks between them.

* `ofLines_linesOf` and `linesOf_ofLines`: nothing is lost either way, as long as no line holds a
  break itself.
* `block_eq_ofLines` and `indent_ofLines` say which lines an object type and an indented text have.
* `block_injective`: the text of an object type determines its lines.
-/

namespace SoapTypes.Text

/-- A text without line breaks. -/
def OneLine (s : String) : Prop := '\n' ∉ s.toList

instance (s : String) : Decidable (OneLine s) := inferInstanceAs (Decidable (¬ _))

/-- The lines of a text. -/
def linesOf (s : String) : List String := allPieces '\n' s

/-- Lines one below the other. -/
def ofLines (lines : List String) : String := joinWith "\n" lines

theorem OneLine.append {s t : String} (hs : OneLine s) (ht : OneLine t) : OneLine (s ++ t) := by
  simpa [OneLine, String.toList_append] using And.intro hs ht

theorem OneLine.of_isInfix {s t : String} (h : OneLine t) (hi : s.toList <:+: t.toList) :
    OneLine s := fun hm => h (hi.mem hm)

theorem oneLine_joinWith {separator : String} (hs : OneLine separator) {texts : List String}
    (h : ∀ text ∈ texts, OneLine text) : OneLine (joinWith separator texts) := by
  induction texts with
  | nil => simp [OneLine]
  | cons text texts ih =>
    obtain ⟨ht, hr⟩ := List.forall_mem_cons.1 h
    cases texts with
    | nil => exact ht
    | cons next texts => exact (ht.append hs).append (ih hr)

/-! ### Cutting at line breaks -/

theorem cut_of_not_mem {sep : Char} {cs : List Char} (h : sep ∉ cs) : cut sep cs = (cs, []) := by
  induction cs with
  | nil => rfl
  | cons c cs ih =>
    simp only [List.mem_cons, not_or] at h
    rw [cut_cons, if_neg (Ne.symm h.1), ih h.2]

theorem cut_append_sep (sep : Char) (cs rest : List Char) :
    cut sep (cs ++ sep :: rest) =
      ((cut sep cs).1, (cut sep cs).2 ++ (cut sep rest).1 :: (cut sep rest).2) := by
  induction cs with
  | nil => simp [cut_cons]
  | cons c cs ih =>
    rw [List.cons_append, cut_cons, cut_cons, ih]
    split <;> rfl

theorem cut_append {sep : Char} {cs : List Char} (h : sep ∉ cs) (rest : List Char) :
    cut sep (cs ++ sep :: rest) = (cs, (cut sep rest).1 :: (cut sep rest).2) := by
  rw [cut_append_sep, cut_of_not_mem h, List.nil_append]

theorem allPieces_eq (sep : Char) (s : String) :
    allPieces sep s =
      String.ofList (cut sep s.toList).1 :: (cut sep s.toList).2.map String.ofList := rfl

theorem allPieces_of_not_mem {sep : Char} {s : String} (h : sep ∉ s.toList) :
    allPieces sep s = [s] := by
  rw [allPieces_eq, cut_of_not_mem h]
  simp

theorem not_mem_of_mem_allPieces {sep : Char} {s piece : String} (h : piece ∈ allPieces sep s) :
    sep ∉ piece.toList := by
  rw [allPieces_eq, List.mem_cons, List.mem_map] at h
  obtain ⟨hf, hr⟩ := not_mem_cut sep s.toList
  rcases h with rfl | ⟨piece, hp, rfl⟩
  · simpa using hf
  · simpa using hr piece hp

theorem linesOf_of_oneLine {s : String} (h : OneLine s) : linesOf s = [s] := allPieces_of_not_mem h

theorem linesOf_append {s : String} (h : OneLine s) (t : String) :
    linesOf (s ++ "\n" ++ t) = s :: linesOf t := by
  have hc : (s ++ "\n" ++ t).toList = s.toList ++ '\n' :: t.toList := by
    simp [String.toList_append]
  rw [linesOf, allPieces_eq, hc, cut_append h]
  simp [linesOf, allPieces_eq]

theorem linesOf_ne_nil (s : String) : linesOf s ≠ [] := by simp [linesOf, allPieces_eq]

theorem oneLine_of_mem_linesOf {s line : String} (h : line ∈ linesOf s) : OneLine line :=
  not_mem_of_mem_allPieces h

/-- The lines of a text make up the text. -/
theorem ofLines_linesOf (s : String) : ofLines (linesOf s) = s := joinWith_pieces '\n' s

/-- Lines that are put one below the other are the lines of the whole. -/
theorem linesOf_ofLines {lines : List String} (hne : lines ≠ []) (h : ∀ l ∈ lines, OneLine l) :
    linesOf (ofLines lines) = lines := by
  induction lines with
  | nil => exact absurd rfl hne
  | cons line lines ih =>
    have hl : OneLine line := h line (by simp)
    cases lines with
    | nil => exact linesOf_of_oneLine hl
    | cons next lines =>
      rw [ofLines, joinWith_cons_cons, linesOf_append hl]
      exact congrArg _ (ih (by simp) fun l hm => h l (List.mem_cons_of_mem _ hm))

/-! ### Joining lists of texts -/

theorem joinWith_cons (sep s : String) {rest : List String} (h : rest ≠ []) :
    joinWith sep (s :: rest) = s ++ sep ++ joinWith sep rest := by
  obtain ⟨t, rest, rfl⟩ := List.exists_cons_of_ne_nil h
  rfl

theorem joinWith_append (sep : String) {a b : List String} (ha : a ≠ []) (hb : b ≠ []) :
    joinWith sep (a ++ b) = joinWith sep a ++ sep ++ joinWith sep b := by
  induction a with
  | nil => exact absurd rfl ha
  | cons s a ih =>
    by_cases h : a = []
    · subst h
      simp [joinWith_cons sep s hb]
    · rw [List.cons_append, joinWith_cons sep s (by simp [h]), ih h, joinWith_cons sep s h]
      simp only [String.append_assoc]

/-- Joining in two rounds is joining once. -/
theorem joinWith_flatMap {α : Type} (sep : String) (f : α → List String) (l : List α)
    (h : ∀ x ∈ l, f x ≠ []) :
    joinWith sep (l.flatMap f) = joinWith sep (l.map fun x => joinWith sep (f x)) := by
  induction l with
  | nil => rfl
  | cons x l ih =>
    have hx : f x ≠ [] := h x (by simp)
    have ih := ih fun y hy => h y (List.mem_cons_of_mem _ hy)
    cases l with
    | nil => simp
    | cons y l =>
      have hy : f y ≠ [] := h y (by simp)
      have hl : (y :: l).flatMap f ≠ [] := by simp [hy]
      rw [List.flatMap_cons, joinWith_append sep hx hl, ih]
      rfl

/-- The lines of texts one below the other are the lines of all of them. -/
theorem linesOf_ofLines_map {α : Type} (f : α → String) {l : List α} (hne : l ≠ []) :
    linesOf (ofLines (l.map f)) = l.flatMap fun x => linesOf (f x) := by
  have hl : l.flatMap (fun x => linesOf (f x)) ≠ [] := by
    obtain ⟨x, l, rfl⟩ := List.exists_cons_of_ne_nil hne
    simp [linesOf_ne_nil]
  have h1 : ∀ line ∈ l.flatMap (fun x => linesOf (f x)), OneLine line := by
    intro line hm
    obtain ⟨x, -, hx⟩ := List.mem_flatMap.1 hm
    exact oneLine_of_mem_linesOf hx
  rw [← linesOf_ofLines hl h1, ofLines, ofLines,
    joinWith_flatMap _ _ _ fun x _ => linesOf_ne_nil (f x)]
  congr 3
  funext x
  exact (ofLines_linesOf (f x)).symm

/-! ### Margins -/

/-- A text with a margin in front of all lines but the first one. -/
def withMargin (margin s : String) : String :=
  String.ofList (s.toList.flatMap fun c => if c = '\n' then '\n' :: margin.toList else [c])

@[simp] theorem toList_withMargin (margin s : String) :
    (withMargin margin s).toList =
      s.toList.flatMap fun c => if c = '\n' then '\n' :: margin.toList else [c] := by
  simp [withMargin]

theorem withMargin_empty (s : String) : withMargin "" s = s := by
  rw [← String.toList_inj, toList_withMargin]
  induction s.toList with
  | nil => rfl
  | cons c cs ih =>
    rw [List.flatMap_cons, ih]
    by_cases hc : c = '\n' <;> simp [hc]

theorem withMargin_append (margin s t : String) :
    withMargin margin (s ++ t) = withMargin margin s ++ withMargin margin t := by
  rw [← String.toList_inj]
  simp [String.toList_append]

theorem withMargin_break (margin : String) : withMargin margin "\n" = "\n" ++ margin := by
  rw [← String.toList_inj]
  simp [String.toList_append]

/-- A text on one line has no place for a margin. -/
theorem withMargin_of_oneLine (margin : String) {s : String} (h : OneLine s) :
    withMargin margin s = s := by
  have hc : ∀ c ∈ s.toList, (if c = '\n' then '\n' :: margin.toList else [c]) = [c] :=
    fun c hm => if_neg fun e : c = '\n' => h (e ▸ hm)
  rw [← String.toList_inj, toList_withMargin, List.flatMap_congr hc, List.flatMap_singleton']

/-- A margin in front of a margin is one margin. -/
theorem withMargin_withMargin (outer : String) {inner : String} (h : OneLine inner) (s : String) :
    withMargin outer (withMargin inner s) = withMargin (outer ++ inner) s := by
  have hm := withMargin_of_oneLine outer h
  rw [← String.toList_inj, toList_withMargin] at hm
  rw [← String.toList_inj, toList_withMargin, toList_withMargin, toList_withMargin,
    List.flatMap_assoc]
  congr 1
  funext c
  by_cases hc : c = '\n'
  · simp [hc, hm, String.toList_append]
  · simp [hc]

theorem indent_eq_withMargin (s : String) : indent s = withMargin indentStep s := rfl

/-- A block with a margin that moves to the right is the block with a greater margin. -/
theorem indent_withMargin {margin : String} (h : OneLine margin) (s : String) :
    indent (withMargin margin s) = withMargin (indentStep ++ margin) s :=
  withMargin_withMargin indentStep h s

theorem joinWith_margin (margin line : String) (lines : List String) :
    joinWith ("\n" ++ margin) (line :: lines) = ofLines (line :: lines.map (margin ++ ·)) := by
  induction lines generalizing line with
  | nil => rfl
  | cons next lines ih =>
    have h := ih next
    rw [joinWith_cons_cons, h, ofLines, ofLines, List.map_cons, joinWith_cons_cons]
    cases lines with
    | nil => simp [String.append_assoc]
    | cons last lines => simp [String.append_assoc]

theorem indent_joinWith_break {line : String} {lines : List String}
    (h : ∀ l ∈ line :: lines, OneLine l) :
    indent (ofLines (line :: lines)) = joinWith ("\n" ++ indentStep) (line :: lines) := by
  induction lines generalizing line with
  | nil => exact indent_of_single_line (h line (by simp))
  | cons next lines ih =>
    have hl : indent line = line := indent_of_single_line (h line (by simp))
    have hb : indent "\n" = "\n" ++ indentStep := by decide
    rw [ofLines, joinWith_cons_cons, indent_append, indent_append, hl, hb, joinWith_cons_cons]
    exact congrArg _ (ih fun l hm => h l (List.mem_cons_of_mem _ hm))

/-- Indentation puts one step in front of all lines but the first one. -/
theorem indent_ofLines {line : String} {lines : List String}
    (h : ∀ l ∈ line :: lines, OneLine l) :
    indent (ofLines (line :: lines)) = ofLines (line :: lines.map (indentStep ++ ·)) := by
  rw [indent_joinWith_break h, joinWith_margin]

/-- The lines of a block that moves to the right as a whole. -/
theorem linesOf_indent (s : String) :
    linesOf (indentStep ++ indent s) = (linesOf s).map (indentStep ++ ·) := by
  obtain ⟨line, lines, hs⟩ := List.exists_cons_of_ne_nil (linesOf_ne_nil s)
  have h1 : ∀ l ∈ line :: lines, OneLine l := fun l hm => oneLine_of_mem_linesOf (hs ▸ hm)
  have h2 : ∀ l ∈ (line :: lines).map (indentStep ++ ·), OneLine l := by
    intro l hm
    obtain ⟨inner, hi, rfl⟩ := List.mem_map.1 hm
    exact OneLine.append (by decide) (h1 inner hi)
  have he : indentStep ++ indent s = ofLines ((line :: lines).map (indentStep ++ ·)) := by
    rw [← ofLines_linesOf s, hs, indent_ofLines h1]
    cases lines with
    | nil => rfl
    | cons next lines =>
      rw [List.map_cons, List.map_cons, List.map_cons, ofLines, ofLines, joinWith_cons_cons,
        joinWith_cons_cons]
      simp only [String.append_assoc]
  rw [he, linesOf_ofLines (by simp) h2, hs]

end SoapTypes.Text

namespace SoapTypes.Shape

open Text

/-- The lines of an object type from the lines of its fields. -/
def blockLines : List String → List String
  | [] => ["\x7b\x7d"]
  | line :: lines => "\x7b" :: ((line :: lines).map (indentStep ++ ·) ++ ["\x7d"])

theorem blockLines_ne_nil (lines : List String) : blockLines lines ≠ [] := by
  cases lines <;> simp [blockLines]

theorem oneLine_of_mem_blockLines {lines : List String} (h : ∀ l ∈ lines, OneLine l)
    {line : String} (hm : line ∈ blockLines lines) : OneLine line := by
  cases lines with
  | nil =>
    obtain rfl : line = "\x7b\x7d" := by simpa [blockLines] using hm
    decide
  | cons first lines =>
    simp only [blockLines, List.mem_cons, List.mem_append, List.mem_map, List.not_mem_nil,
      or_false] at hm
    rcases hm with rfl | ⟨inner, hi, rfl⟩ | rfl
    · decide
    · exact OneLine.append (by decide) (h inner (by simpa using hi))
    · decide

/-- The text of an object type, line by line. -/
theorem block_eq_ofLines (lines : List String) : block lines = ofLines (blockLines lines) := by
  cases lines with
  | nil => rfl
  | cons line lines =>
    have hne : (line :: lines).map (indentStep ++ ·) ≠ [] := by simp
    have hm : indentStep ++ ofLines (line :: lines.map (indentStep ++ ·)) =
        ofLines ((line :: lines).map (indentStep ++ ·)) := by
      cases lines with
      | nil => rfl
      | cons next lines => simp [ofLines, String.append_assoc]
    calc block (line :: lines)
        = "\x7b\n" ++ (indentStep ++ ofLines (line :: lines.map (indentStep ++ ·))) ++ "\n\x7d" := by
          simp only [block, joinWith_margin, String.append_assoc]
      _ = "\x7b\n" ++ ofLines ((line :: lines).map (indentStep ++ ·)) ++ "\n\x7d" := by rw [hm]
      _ = ofLines (blockLines (line :: lines)) := by
          rw [blockLines, ofLines, ofLines, joinWith_cons _ _ (by simp),
            joinWith_append _ hne (by simp)]
          simp [String.append_assoc]

theorem linesOf_block {lines : List String} (h : ∀ l ∈ lines, OneLine l) :
    linesOf (block lines) = blockLines lines := by
  rw [block_eq_ofLines]
  exact linesOf_ofLines (blockLines_ne_nil lines) fun l hm => oneLine_of_mem_blockLines h hm

/-- Object types with the same text have the same lines. -/
theorem block_injective {a b : List String} (ha : ∀ l ∈ a, OneLine l) (hb : ∀ l ∈ b, OneLine l)
    (h : block a = block b) : a = b := by
  have hl : blockLines a = blockLines b := by rw [← linesOf_block ha, ← linesOf_block hb, h]
  have hi : Function.Injective fun s : String => indentStep ++ s := by
    intro s t hst
    have hc := congrArg String.toList hst
    simp only [String.toList_append, List.append_cancel_left_eq] at hc
    exact String.toList_inj.1 hc
  cases a with
  | nil => cases b <;> simp [blockLines] at hl ⊢
  | cons x a =>
    cases b with
    | nil => simp [blockLines] at hl
    | cons y b =>
      simp only [blockLines, List.cons.injEq, true_and, List.append_cancel_right_eq] at hl
      exact hi.list_map hl

end SoapTypes.Shape
