import SoapTypes.Proofs.FieldTypes

/-!
# Uses in parts of a text

What a text uses as types of fields can be found part by part, where the parts meet at a character
that no use goes across: a line break, a brace, a colon. So the text of an object type uses what its
lines use, at every depth.

* `uses_append_foreign` and `uses_append_colon` cut a text in two.
* `uses_block`: the uses of an object type, `InBraces.uses_append`: those around one.
* `uses_indent` and `Uses.of_propertyName`: indentation and quotes make no use.
-/

namespace SoapTypes

open Text

/-! ### Uses in parts of a text -/

section Parts

variable {name a b cs : List Char} {c : Char}

/-- A text without a character that ends a use has none. -/
theorem not_uses_of_not_mem (h : ∀ c ∈ cs, endsUse c = false) : ¬ Uses name cs := by
  rintro ⟨use, hu, hi⟩
  obtain ⟨front, e, rfl, he⟩ := hu.exists_last
  have hm := h e (hi.mem (by simp))
  rw [he] at hm
  cases hm

/-- A text without a character of every introduction has none. -/
theorem not_uses_of_not_introduced (h : ∀ c ∈ cs, c ≠ ':' ∧ c ≠ '<') : ¬ Uses name cs := by
  rintro ⟨use, ⟨hi, _, _, _⟩, hin⟩
  simp only [typeIntroductions_eq, List.mem_cons, List.not_mem_nil, or_false] at hi
  rcases hi with rfl | rfl
  · exact (h ':' (hin.mem (by simp))).1 rfl
  · exact (h '<' (hin.mem (by simp))).2 rfl

/-- No use goes on across a foreign character. -/
theorem uses_append_foreign (hc : isUseChar c = false) :
    Uses name (a ++ c :: b) ↔ Uses name a ∨ Uses name b := by
  constructor
  · rintro ⟨use, hu, hi⟩
    have hm : c ∉ use := fun hm => absurd (hu.isUseChar c hm) (by simp [hc])
    exact (infix_append_cons hm hi).imp (fun h => ⟨use, hu, h⟩) fun h => ⟨use, hu, h⟩
  · rintro (h | h)
    · exact h.mono (List.prefix_append _ _).isInfix
    · exact h.mono ((List.suffix_cons _ _).trans (List.suffix_append _ _)).isInfix

/-- No use goes on across a colon, but one may begin with it. -/
theorem uses_append_colon : Uses name (a ++ ':' :: b) ↔ Uses name a ∨ Uses name (':' :: b) := by
  constructor
  · rintro ⟨use, hu, hi⟩
    obtain ⟨d, ds, rfl, -, hd⟩ := hu.exists_head
    suffices h : d :: ds <:+: a ∨ d :: ds <:+: ':' :: b from
      h.imp (fun h => ⟨_, hu, h⟩) fun h => ⟨_, hu, h⟩
    clear hu
    induction a with
    | nil => exact .inr hi
    | cons x a ih =>
      rw [List.cons_append, List.infix_cons_iff] at hi
      rcases hi with hi | hi
      · obtain ⟨rfl, hp⟩ := List.cons_prefix_cons.1 hi
        exact .inl (List.cons_prefix_cons.2 ⟨rfl, prefix_append_cons hd hp⟩).isInfix
      · exact (ih hi).imp_left List.infix_cons
  · rintro (h | h)
    · exact h.mono (List.prefix_append _ _).isInfix
    · exact h.mono (List.suffix_append _ _).isInfix

/-- A way to write characters under which no use arises: a character is written as it is, or with a
foreign character and others that no use begins with. -/
def WritesNoUse (write : Char → List Char) : Prop :=
  ∀ c, write c = [c] ∨ ∃ d ds, write c = d :: ds ∧ isUseChar d = false ∧
    ∀ x ∈ ds, x ≠ ':' ∧ x ≠ 'A'

variable {write : Char → List Char}

theorem prefix_of_prefix_flatMap (hw : WritesNoUse write) {use : List Char}
    (hu : ∀ c ∈ use, isUseChar c = true) (h : use <+: cs.flatMap write) : use <+: cs := by
  induction cs generalizing use with
  | nil => simpa using h
  | cons c cs ih =>
    cases use with
    | nil => exact List.nil_prefix
    | cons d use =>
      obtain ⟨hd, hu⟩ := List.forall_mem_cons.1 hu
      rw [List.flatMap_cons] at h
      rcases hw c with hc | ⟨e, es, hc, he, -⟩
      · rw [hc, List.singleton_append] at h
        obtain ⟨rfl, hp⟩ := List.cons_prefix_cons.1 h
        exact List.cons_prefix_cons.2 ⟨rfl, ih hu hp⟩
      · rw [hc, List.cons_append] at h
        obtain ⟨rfl, -⟩ := List.cons_prefix_cons.1 h
        exact absurd hd (by simp [he])

theorem Uses.of_flatMap (hw : WritesNoUse write) (h : Uses name (cs.flatMap write)) :
    Uses name cs := by
  induction cs with
  | nil => exact h
  | cons c cs ih =>
    rw [List.flatMap_cons] at h
    rcases hw c with hc | ⟨d, ds, hc, hd, hds⟩
    · rw [hc, List.singleton_append] at h
      obtain ⟨use, hu, hi⟩ := h
      rcases List.infix_cons_iff.1 hi with hp | hi
      · refine ⟨use, hu, (@prefix_of_prefix_flatMap (c :: cs) _ hw _ hu.isUseChar ?_).isInfix⟩
        rwa [List.flatMap_cons, hc]
      · exact (ih ⟨use, hu, hi⟩).mono (List.suffix_cons c cs).isInfix
    · have hrest : Uses name (ds ++ cs.flatMap write) := by
        rw [hc, List.cons_append, ← List.nil_append (d :: _), uses_append_foreign hd] at h
        exact h.resolve_left not_uses_nil
      clear hc h
      refine (ih ?_).mono (List.suffix_cons c cs).isInfix
      induction ds with
      | nil => exact hrest
      | cons x ds ihd =>
        obtain ⟨hx, hds⟩ := List.forall_mem_cons.1 hds
        exact ihd hds ((uses_cons_iff hx.1 hx.2).1 hrest)

theorem Uses.flatMap (hw : ∀ c, isUseChar c = true → write c = [c]) (h : Uses name cs) :
    Uses name (cs.flatMap write) := by
  obtain ⟨use, hu, before, behind, rfl⟩ := h
  have hsame : use.flatMap write = use := by
    rw [List.flatMap_congr fun c hc => hw c (hu.isUseChar c hc), List.flatMap_singleton']
  refine ⟨use, hu, before.flatMap write, behind.flatMap write, ?_⟩
  rw [List.flatMap_append, List.flatMap_append, hsame]

end Parts

/-! ### Uses in written texts -/

section Written

variable {name : List Char}

/-- Indentation makes no use and loses none. -/
theorem uses_indent (s : String) : Uses name (indent s).toList ↔ Uses name s.toList := by
  have hw : WritesNoUse indentChar := by
    intro c
    by_cases hc : c = '\n'
    · exact .inr ⟨'\n', indentStep.toList, by rw [indentChar, if_pos hc], by decide,
        forall_of_all (by decide)⟩
    · exact .inl (by rw [indentChar, if_neg hc])
  rw [toList_indent]
  refine ⟨Uses.of_flatMap hw, Uses.flatMap fun c hc => ?_⟩
  rw [indentChar, if_neg]
  rintro rfl
  exact absurd hc (by decide)

theorem hexDigit_ne : ∀ n, n < 16 → hexDigit n ≠ ':' ∧ hexDigit n ≠ 'A' := by decide

/-- What is written between quotes makes no use. -/
theorem Uses.of_quoted {s : String} (h : Uses name (quoted s).toList) : Uses name s.toList := by
  have hd := fun n => hexDigit_ne (n % 16) (Nat.mod_lt n (by decide))
  have hw : WritesNoUse quotedChar := by
    intro c
    rcases Json.quotedChar_cases c with ⟨-, -, -, h⟩ | ⟨letter, -, he, h⟩ | h
    · exact .inl h
    · refine .inr ⟨'\\', [letter], h, by decide, ?_⟩
      rw [List.forall_mem_singleton]
      constructor <;> rintro rfl <;> exact absurd he (by simp [Json.plainEscape?])
    · right
      rw [h]
      unfold utf16Units
      split
      · exact ⟨_, _, rfl, by decide, by simp [Json.hexDigits_four, hd]⟩
      · exact ⟨_, _, rfl, by decide, by simp [Json.hexDigits_four, hd]⟩
  rw [toList_quoted, uses_cons_iff (by decide) (by decide), uses_append_foreign (by decide)] at h
  exact (h.resolve_right not_uses_nil).of_flatMap hw

theorem Uses.of_propertyName {quoting : Quoting} {s : String}
    (h : Uses name (Shape.propertyName quoting s).toList) : Uses name s.toList := by
  unfold Shape.propertyName at h
  split at h
  · exact h.of_quoted
  · exact h
  · split at h
    · exact h
    · exact h.of_quoted

/-- The lines of an object type hold its uses. -/
theorem uses_joinWith_lines {lines : List String} :
    Uses name (joinWith ("\n" ++ indentStep) lines).toList ↔
      ∃ line ∈ lines, Uses name line.toList := by
  induction lines with
  | nil => simp [not_uses_nil]
  | cons line lines ih =>
    cases lines with
    | nil => simp
    | cons next lines =>
      have hcut : (joinWith ("\n" ++ indentStep) (line :: next :: lines)).toList =
          line.toList ++ '\n' :: (indentStep.toList ++
            (joinWith ("\n" ++ indentStep) (next :: lines)).toList) := by
        simp [String.toList_append]
      rw [hcut, uses_append_foreign (by decide), uses_append_left (forall_of_all (by decide)), ih]
      simp

/-- A text between braces. -/
def InBraces (cs : List Char) : Prop := ∃ middle, cs = '\x7b' :: (middle ++ ['\x7d'])

/-- No use goes on across the ends of a text between braces. -/
theorem InBraces.uses_append {a b cs : List Char} (h : InBraces cs) :
    Uses name (a ++ (cs ++ b)) ↔ Uses name a ∨ Uses name cs ∨ Uses name b := by
  obtain ⟨middle, rfl⟩ := h
  have hcs : Uses name ('\x7b' :: (middle ++ ['\x7d'])) ↔ Uses name middle := by
    rw [uses_cons_iff (by decide) (by decide), uses_append_foreign (by decide),
      or_iff_left not_uses_nil]
  rw [hcs, List.cons_append, uses_append_foreign (by decide), List.append_assoc,
    List.singleton_append, uses_append_foreign (by decide)]

theorem toList_block_cons (line : String) (lines : List String) :
    (Shape.block (line :: lines)).toList = '\x7b' :: ('\n' :: (indentStep.toList ++
      (joinWith ("\n" ++ indentStep) (line :: lines)).toList ++ ['\n']) ++ ['\x7d']) := by
  simp [Shape.block, String.toList_append]

theorem inBraces_block (lines : List String) : InBraces (Shape.block lines).toList := by
  cases lines with
  | nil => exact ⟨[], rfl⟩
  | cons line lines => exact ⟨_, toList_block_cons line lines⟩

/-- Indentation changes nothing at the ends of a text between braces. -/
theorem InBraces.indent {s : String} (h : InBraces s.toList) : InBraces (indent s).toList := by
  obtain ⟨middle, hm⟩ := h
  refine ⟨middle.flatMap indentChar, ?_⟩
  rw [toList_indent, hm]
  simp [indentChar]

/-- **The text of an object type uses what its lines use.** -/
theorem uses_block {lines : List String} :
    Uses name (Shape.block lines).toList ↔ ∃ line ∈ lines, Uses name line.toList := by
  cases lines with
  | nil =>
    refine iff_of_false (fun h => ?_) (by simp)
    exact absurd h (not_uses_of_not_mem (forall_of_all (by decide)))
  | cons line lines =>
    have hcut : (Shape.block (line :: lines)).toList = ['\x7b'] ++ '\n' :: (indentStep.toList ++
        ((joinWith ("\n" ++ indentStep) (line :: lines)).toList ++ '\n' :: ['\x7d'])) := by
      simp [toList_block_cons]
    rw [hcut, uses_append_foreign (by decide), uses_append_left (forall_of_all (by decide)),
      uses_append_foreign (by decide), uses_joinWith_lines]
    have h1 : ¬ Uses name ['\x7b'] := not_uses_of_not_mem (forall_of_all (by decide))
    have h2 : ¬ Uses name ['\x7d'] := not_uses_of_not_mem (forall_of_all (by decide))
    simp [h1, h2]

end Written

end SoapTypes
