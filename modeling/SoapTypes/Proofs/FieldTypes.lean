import SoapTypes.Proofs.Plain
import SoapTypes.Proofs.Unions

/-!
# The field types that a text uses

A text uses a name as the type of a field where it has the name behind an introduction, with array
suffixes and a semicolon or a closing bracket after it. The names are looked for from left to right,
and a use that was found is passed over; no other one begins inside of it, so nothing is missed.

* `FieldUse` gives the spellings of a use, and `Uses` says that one of them stands in a text.
* `mem_fieldTypesFrom_iff` and `mem_typeReferences_iff`: the search finds the names that are used,
  all of them and no others.
* `ArrayType.uses_iff`: the type of a field, arrays around a name, uses this name and no other one.
-/

namespace SoapTypes

open Text

/-! ### Uses -/

/-- A name of a type, which may be qualified. -/
def IsTypeName (name : List Char) : Prop :=
  ∃ c cs, name = c :: cs ∧ isIdentifierStart c = true ∧ ∀ d ∈ cs, isTypeNamePart d = true

/-- Array suffixes. -/
def suffixes : Nat → List Char
  | 0 => []
  | k + 1 => '[' :: ']' :: suffixes k

/-- A character that ends a field type. -/
def endsUse (c : Char) : Bool := c == ';' || c == '>'

/-- The spellings of a use of a name as the type of a field. -/
inductive FieldUse (name : List Char) : List Char → Prop where
  | mk {introduction : List Char} {e : Char} (hi : introduction ∈ typeIntroductions)
      (hn : IsTypeName name) (k : Nat) (he : endsUse e = true) :
      FieldUse name (introduction ++ (name ++ (suffixes k ++ [e])))

/-- A name is used as the type of a field in a text. -/
def Uses (name cs : List Char) : Prop := ∃ use, FieldUse name use ∧ use <:+: cs

/-- A character that a use can have. -/
def isUseChar (c : Char) : Bool :=
  isTypeNamePart c || [':', ' ', '<', '[', ']', ';', '>'].contains c

/-- What is computed to hold of all characters of a list holds of each of them. -/
theorem forall_of_all {p : Char → Prop} [DecidablePred p] {cs : List Char}
    (h : (cs.all fun c => decide (p c)) = true) : ∀ c ∈ cs, p c :=
  fun c hc => of_decide_eq_true (List.all_eq_true.1 h c hc)

theorem typeIntroductions_eq :
    typeIntroductions = [[':', ' '], ['A', 'r', 'r', 'a', 'y', '<']] := by decide

/-- A text has one introduction at its head at most. -/
theorem eq_of_introductions {introduction introduction' a b : List Char}
    (hi : introduction ∈ typeIntroductions) (hi' : introduction' ∈ typeIntroductions)
    (h : introduction ++ a = introduction' ++ b) : a = b := by
  simp only [typeIntroductions_eq, List.mem_cons, List.not_mem_nil, or_false] at hi hi'
  rcases hi with rfl | rfl <;> rcases hi' with rfl | rfl
  · exact List.append_cancel_left h
  · simp at h
  · simp at h
  · exact List.append_cancel_left h

theorem isTypeNamePart_of_isIdentifierStart {c : Char} (h : isIdentifierStart c = true) :
    isTypeNamePart c = true := by
  simp [isTypeNamePart, isIdentifierPart, h]

theorem IsTypeName.parts {name : List Char} (h : IsTypeName name) :
    ∀ c ∈ name, isTypeNamePart c = true := by
  obtain ⟨c, cs, rfl, hc, hcs⟩ := h
  exact List.forall_mem_cons.2 ⟨isTypeNamePart_of_isIdentifierStart hc, hcs⟩

theorem IsTypeName.ne_nil {name : List Char} (h : IsTypeName name) : name ≠ [] := by
  obtain ⟨c, cs, rfl, -, -⟩ := h
  exact List.cons_ne_nil c cs

theorem mem_suffixes {k : Nat} {c : Char} (h : c ∈ suffixes k) : c = '[' ∨ c = ']' := by
  induction k with
  | zero => cases h
  | succ k ih =>
    rw [suffixes, List.mem_cons, List.mem_cons] at h
    rcases h with rfl | rfl | h
    · exact .inl rfl
    · exact .inr rfl
    · exact ih h

namespace FieldUse

variable {name use : List Char}

/-- A use begins with a colon or an `A`, and there is no other colon in it. -/
theorem exists_head (h : FieldUse name use) :
    ∃ c cs, use = c :: cs ∧ (c = ':' ∨ c = 'A') ∧ ':' ∉ cs := by
  obtain ⟨hi, hn, k, he⟩ := h
  rename_i introduction e
  have htail : ':' ∉ name ++ (suffixes k ++ [e]) := by
    simp only [List.mem_append, List.mem_singleton, not_or]
    refine ⟨fun hm => absurd (hn.parts _ hm) (by decide), fun hm => ?_, ?_⟩
    · rcases mem_suffixes hm with hc | hc <;> exact absurd hc (by decide)
    · rintro rfl
      exact absurd he (by decide)
  simp only [typeIntroductions_eq, List.mem_cons, List.not_mem_nil, or_false] at hi
  rcases hi with rfl | rfl
  · exact ⟨_, _, rfl, .inl rfl, by simpa using htail⟩
  · exact ⟨_, _, rfl, .inr rfl, by simpa using htail⟩

theorem ne_nil (h : FieldUse name use) : use ≠ [] := by
  obtain ⟨c, cs, rfl, -⟩ := h.exists_head
  exact List.cons_ne_nil c cs

theorem exists_last (h : FieldUse name use) : ∃ front e, use = front ++ [e] ∧ endsUse e = true := by
  obtain ⟨hi, hn, k, he⟩ := h
  rename_i introduction e
  exact ⟨introduction ++ (name ++ suffixes k), e, by simp only [List.append_assoc], he⟩

theorem isUseChar (h : FieldUse name use) : ∀ c ∈ use, isUseChar c = true := by
  obtain ⟨hi, hn, k, he⟩ := h
  intro c hm
  simp only [List.mem_append, List.mem_singleton] at hm
  rcases hm with hm | hm | hm | rfl
  · revert c
    simp only [typeIntroductions_eq, List.mem_cons, List.not_mem_nil, or_false] at hi
    rcases hi with rfl | rfl
    · exact forall_of_all (by decide)
    · exact forall_of_all (by decide)
  · simp [SoapTypes.isUseChar, hn.parts c hm]
  · rcases mem_suffixes hm with rfl | rfl <;> decide
  · simp only [endsUse, Bool.or_eq_true, beq_iff_eq] at he
    rcases he with rfl | rfl <;> decide

end FieldUse

/-! ### The search -/

theorem endsFieldType_iff {cs : List Char} :
    endsFieldType cs = true ↔ ∃ k e rest, endsUse e = true ∧ cs = suffixes k ++ e :: rest := by
  fun_induction endsFieldType cs with
  | case1 cs ih =>
    rw [ih]
    constructor
    · rintro ⟨k, e, rest, he, rfl⟩
      exact ⟨k + 1, e, rest, he, rfl⟩
    · rintro ⟨k, e, rest, he, h⟩
      cases k with
      | zero =>
        obtain ⟨rfl, -⟩ := List.cons.inj h
        exact absurd he (by decide)
      | succ k =>
        rw [suffixes, List.cons_append, List.cons_append] at h
        exact ⟨k, e, rest, he, by simpa using h⟩
  | case2 c cs hne =>
    constructor
    · exact fun he => ⟨0, c, cs, he, rfl⟩
    · rintro ⟨k, e, rest, he, h⟩
      cases k with
      | zero =>
        obtain ⟨rfl, -⟩ := List.cons.inj h
        exact he
      | succ k =>
        rw [suffixes, List.cons_append, List.cons_append] at h
        obtain ⟨rfl, rfl⟩ := List.cons.inj h
        exact absurd rfl (hne _ rfl)
  | case3 => simp

/-- What ends a field type begins with a bracket or a semicolon. -/
theorem exists_bracket_of_endsFieldType {cs : List Char} (h : endsFieldType cs = true) :
    ∃ d ds, cs = d :: ds ∧ d ∈ ['[', ';', '>'] := by
  obtain ⟨k, e, rest, he, rfl⟩ := endsFieldType_iff.1 h
  cases k with
  | zero =>
    simp only [endsUse, Bool.or_eq_true, beq_iff_eq] at he
    rcases he with rfl | rfl <;> exact ⟨_, _, rfl, by decide⟩
  | succ k => exact ⟨_, _, rfl, by decide⟩

/-- It begins with none of the characters of a name. -/
theorem exists_head_of_endsFieldType {cs : List Char} (h : endsFieldType cs = true) :
    ∃ d ds, cs = d :: ds ∧ isTypeNamePart d = false ∧ d ≠ '<' := by
  have hall : ∀ d ∈ ['[', ';', '>'], isTypeNamePart d = false ∧ d ≠ '<' :=
    forall_of_all (by decide)
  obtain ⟨d, ds, rfl, hd⟩ := exists_bracket_of_endsFieldType h
  exact ⟨d, ds, rfl, hall d hd⟩

theorem fieldTypeName?_eq_some_iff {cs name : List Char} :
    fieldTypeName? cs = some name ↔
      IsTypeName name ∧ ∃ rest, cs = name ++ rest ∧ endsFieldType rest = true := by
  constructor
  · intro h
    cases cs with
    | nil => cases h
    | cons c cs =>
      rw [fieldTypeName?] at h
      split at h
      · rename_i hc
        rw [Bool.and_eq_true] at hc
        cases h
        refine ⟨⟨c, _, rfl, hc.1, List.all_eq_true.1 List.all_takeWhile⟩, _, ?_, hc.2⟩
        rw [List.cons_append, List.takeWhile_append_dropWhile]
      · cases h
  · rintro ⟨⟨c, cs, rfl, hc, hcs⟩, rest, rfl, he⟩
    obtain ⟨d, ds, rfl, hd, -⟩ := exists_head_of_endsFieldType he
    rw [List.cons_append, fieldTypeName?, List.dropWhile_append_of_pos hcs,
      List.takeWhile_append_of_pos hcs, List.dropWhile_cons_of_neg (by simp [hd]),
      List.takeWhile_cons_of_neg (by simp [hd]), hc, he]
    simp

/-- What stands at the head of a text: an introduction, a name, and what ends a field type. -/
structure UseAt (introduction name rest cs : List Char) : Prop where
  introduced : introduction ∈ typeIntroductions
  isName : IsTypeName name
  ends : endsFieldType rest = true
  eq : cs = introduction ++ (name ++ rest)

theorem introducedType?_eq_some_iff {cs introduction name : List Char} :
    introducedType? cs = some (introduction, name) ↔ ∃ rest, UseAt introduction name rest cs := by
  constructor
  · intro h
    obtain ⟨found, hm, h⟩ := List.exists_of_findSome?_eq_some h
    split at h
    · rename_i hp
      obtain ⟨front, rfl⟩ := List.isPrefixOf_iff_prefix.1 hp
      rw [List.drop_left] at h
      obtain ⟨name', hn, he⟩ := Option.map_eq_some_iff.1 h
      obtain ⟨rfl, rfl⟩ := Prod.mk.inj he
      obtain ⟨hname, rest, rfl, hr⟩ := fieldTypeName?_eq_some_iff.1 hn
      exact ⟨rest, hm, hname, hr, rfl⟩
    · cases h
  · rintro ⟨rest, hm, hn, hr, rfl⟩
    have hname : fieldTypeName? (name ++ rest) = some name :=
      fieldTypeName?_eq_some_iff.2 ⟨hn, rest, rfl, hr⟩
    simp only [typeIntroductions_eq, List.mem_cons, List.not_mem_nil, or_false] at hm
    rcases hm with rfl | rfl <;>
      simp [introducedType?, typeIntroductions_eq, hname]

/-- A use begins at the head of a text exactly if the search finds it there. -/
theorem exists_useAt_iff {name cs : List Char} :
    (∃ introduction rest, UseAt introduction name rest cs) ↔
      ∃ use, FieldUse name use ∧ use <+: cs := by
  constructor
  · rintro ⟨introduction, rest, hm, hn, hr, rfl⟩
    obtain ⟨k, e, rest, he, rfl⟩ := endsFieldType_iff.1 hr
    exact ⟨_, .mk hm hn k he, rest, by simp⟩
  · rintro ⟨use, ⟨hm, hn, k, he⟩, rest, rfl⟩
    rename_i introduction e
    exact ⟨introduction, suffixes k ++ e :: rest, hm, hn, endsFieldType_iff.2 ⟨k, e, rest, he, rfl⟩,
      by simp⟩

/-- Two runs of characters of a kind at the head of a text that are followed by characters of
another kind are the same. -/
theorem eq_of_append_cons {p : Char → Bool} {a b a' b' : List Char} {c c' : Char}
    (ha : ∀ x ∈ a, p x = true) (ha' : ∀ x ∈ a', p x = true) (hc : p c = false) (hc' : p c' = false)
    (h : a ++ c :: b = a' ++ c' :: b') : a = a' ∧ c = c' := by
  have ht := congrArg (List.takeWhile p) h
  rw [List.takeWhile_append_of_pos ha, List.takeWhile_append_of_pos ha',
    List.takeWhile_cons_of_neg (by simp [hc]), List.takeWhile_cons_of_neg (by simp [hc']),
    List.append_nil, List.append_nil] at ht
  subst ht
  exact ⟨rfl, (List.cons.inj (List.append_cancel_left h)).1⟩

/-- No use begins inside of a name at the head of a text that is used there. -/
theorem not_prefix_of_name {name use front rest : List Char} (h : FieldUse name use)
    (hf : front ≠ []) (hp : ∀ c ∈ front, isTypeNamePart c = true)
    (hr : endsFieldType rest = true) : ¬ use <+: front ++ rest := by
  rintro ⟨more, hm⟩
  obtain ⟨hi, hn, k, he⟩ := h
  obtain ⟨c, front, rfl⟩ := List.exists_cons_of_ne_nil hf
  obtain ⟨d, ds, rfl, hd, hlt⟩ := exists_head_of_endsFieldType hr
  simp only [typeIntroductions_eq, List.mem_cons, List.not_mem_nil, or_false] at hi
  rcases hi with rfl | rfl
  · -- a colon is no character of a name
    obtain ⟨rfl, -⟩ := List.cons.inj hm
    exact absurd (hp ':' List.mem_cons_self) (by decide)
  · -- the bracket comes right after the name, but no end of a field type begins with it
    obtain ⟨-, hc⟩ := eq_of_append_cons (a := ['A', 'r', 'r', 'a', 'y']) (c := '<')
      (forall_of_all (by decide)) hp (by decide) hd hm
    exact hlt hc.symm

/-- A use stands behind a character that it cannot begin with. -/
theorem FieldUse.infix_cons_iff {name use cs : List Char} {c : Char} (h : FieldUse name use)
    (hc : c ≠ ':') (hA : c ≠ 'A') : use <:+: c :: cs ↔ use <:+: cs := by
  obtain ⟨d, ds, rfl, hd, -⟩ := h.exists_head
  rw [List.infix_cons_iff, List.cons_prefix_cons, or_iff_right_iff_imp]
  rintro ⟨rfl, -⟩
  rcases hd with rfl | rfl
  · exact absurd rfl hc
  · exact absurd rfl hA

/-- A use stands behind characters that it cannot begin with. -/
theorem FieldUse.infix_append_iff {name use a b : List Char} (h : FieldUse name use)
    (ha : ∀ c ∈ a, c ≠ ':' ∧ c ≠ 'A') : use <:+: a ++ b ↔ use <:+: b := by
  induction a with
  | nil => rfl
  | cons c a ih =>
    obtain ⟨hc, ha⟩ := List.forall_mem_cons.1 ha
    rw [List.cons_append, h.infix_cons_iff hc.1 hc.2, ih ha]

/-- A use in an introduced text begins with the introduction or behind it. -/
theorem FieldUse.prefix_or_infix {name use introduction more : List Char} (h : FieldUse name use)
    (hi : introduction ∈ typeIntroductions) (hin : use <:+: introduction ++ more) :
    use <+: introduction ++ more ∨ use <:+: more := by
  simp only [typeIntroductions_eq, List.mem_cons, List.not_mem_nil, or_false] at hi
  rcases hi with rfl | rfl
  · rw [List.cons_append, List.infix_cons_iff] at hin
    exact hin.imp_right (h.infix_append_iff (forall_of_all (by decide))).1
  · rw [List.cons_append, List.infix_cons_iff] at hin
    exact hin.imp_right (h.infix_append_iff (forall_of_all (by decide))).1

/-- A use does not begin inside of a name at the head of a text that is used there. -/
theorem FieldUse.infix_of_infix_append {name use front rest : List Char} (h : FieldUse name use)
    (hp : ∀ c ∈ front, isTypeNamePart c = true) (hr : endsFieldType rest = true)
    (hi : use <:+: front ++ rest) : use <:+: rest := by
  induction front with
  | nil => exact hi
  | cons c front ih =>
    rcases List.infix_cons_iff.1 hi with hi | hi
    · exact absurd hi (not_prefix_of_name h (List.cons_ne_nil c front) hp hr)
    · exact ih (fun d hd => hp d (List.mem_cons_of_mem _ hd)) hi

/-- Behind a use at the head of a text the next one begins after its name. -/
theorem UseAt.prefix_or_infix {introduction name rest cs name' use : List Char}
    (h : UseAt introduction name rest cs) (hu : FieldUse name' use) (hi : use <:+: cs) :
    use <+: cs ∨ use <:+: rest := by
  obtain ⟨hm, hn, hr, rfl⟩ := h
  exact (hu.prefix_or_infix hm hi).imp_right (hu.infix_of_infix_append hn.parts hr)

theorem fieldTypesFrom_eq_drop (skip : Nat) (cs : List Char) :
    fieldTypesFrom skip cs = fieldTypesFrom 0 (cs.drop skip) := by
  induction cs generalizing skip with
  | nil => cases skip <;> rfl
  | cons c cs ih =>
    cases skip with
    | zero => rfl
    | succ skip => exact ih skip

/-- The search goes on behind a use that it found. -/
theorem UseAt.fieldTypesFrom_eq {introduction name rest cs : List Char}
    (h : UseAt introduction name rest cs) :
    fieldTypesFrom 0 cs = String.ofList name :: fieldTypesFrom 0 rest := by
  have hfound := introducedType?_eq_some_iff.2 ⟨rest, h⟩
  obtain ⟨hm, -, -, rfl⟩ := h
  cases introduction with
  | nil => exact absurd hm (by decide)
  | cons c introduction =>
    rw [List.cons_append] at hfound ⊢
    have hdrop : (introduction ++ (name ++ rest)).drop
        ((c :: introduction).length + name.length - 1) = rest := by
      rw [← List.append_assoc, show (c :: introduction).length + name.length - 1 =
        (introduction ++ name).length by simp, List.drop_left]
    rw [fieldTypesFrom, hfound]
    show String.ofList name :: fieldTypesFrom _ _ = _
    rw [fieldTypesFrom_eq_drop, hdrop]

/-- **The search finds the names that are used as types of fields.** -/
theorem mem_fieldTypesFrom_iff {cs : List Char} {name : String} :
    name ∈ fieldTypesFrom 0 cs ↔ Uses name.toList cs := by
  induction hl : cs.length using Nat.strong_induction_on generalizing cs with
  | _ length ih =>
    cases cs with
    | nil =>
      refine iff_of_false (by simp [fieldTypesFrom]) ?_
      rintro ⟨use, hu, hi⟩
      exact hu.ne_nil (List.infix_nil.1 hi)
    | cons c cs =>
      cases hf : introducedType? (c :: cs) with
      | none =>
        have heq : fieldTypesFrom 0 (c :: cs) = fieldTypesFrom 0 cs := by
          rw [fieldTypesFrom, hf]
        rw [heq, ih cs.length (by simp [← hl]) rfl]
        -- a use at the head would have been found
        refine exists_congr fun use => and_congr_right fun hu => ?_
        rw [List.infix_cons_iff, iff_comm, or_iff_right_iff_imp]
        intro hp
        obtain ⟨introduction, rest, hat⟩ := exists_useAt_iff.2 ⟨use, hu, hp⟩
        rw [introducedType?_eq_some_iff.2 ⟨rest, hat⟩] at hf
        cases hf
      | some found =>
        obtain ⟨introduction, found⟩ := found
        obtain ⟨rest, hat⟩ := introducedType?_eq_some_iff.1 hf
        have hrest : rest.length < length := by
          have hn := List.length_pos_of_ne_nil hat.isName.ne_nil
          rw [← hl, hat.eq]
          simp only [List.length_append]
          omega
        rw [hat.fieldTypesFrom_eq, List.mem_cons, ih rest.length hrest rfl]
        constructor
        · rintro (rfl | ⟨use, hu, hi⟩)
          · obtain ⟨use, hu, hp⟩ := exists_useAt_iff.1 ⟨introduction, rest, hat⟩
            exact ⟨use, by simpa using hu, hp.isInfix⟩
          · refine ⟨use, hu, hi.trans ?_⟩
            rw [hat.eq]
            exact ((List.suffix_append _ _).trans (List.suffix_append _ _)).isInfix
        · rintro ⟨use, hu, hi⟩
          rcases hat.prefix_or_infix hu hi with hp | hi
          · left
            obtain ⟨introduction', rest', hat'⟩ := exists_useAt_iff.2 ⟨use, hu, hp⟩
            have hsame := introducedType?_eq_some_iff.2 ⟨rest', hat'⟩
            rw [hf, Option.some.injEq, Prod.mk.injEq] at hsame
            rw [hsame.2, String.ofList_toList]
          · exact .inr ⟨use, hu, hi⟩

/-- The names that a text uses, apart from primitives. -/
theorem mem_typeReferences_iff {text name : String} :
    name ∈ typeReferences text ↔ name ∉ Primitive.names ∧ Uses name.toList text.toList := by
  rw [typeReferences, mem_addNew, List.mem_filter, mem_fieldTypesFrom_iff]
  simp [and_comm]

/-! ### Characters in front of a use -/

section Front

variable {name a b cs : List Char} {c : Char}

theorem Uses.mono (h : Uses name a) (hi : a <:+: b) : Uses name b := by
  obtain ⟨use, hu, h⟩ := h
  exact ⟨use, hu, h.trans hi⟩

theorem Uses.isTypeName (h : Uses name cs) : IsTypeName name := by
  obtain ⟨use, ⟨_, hn, _, _⟩, -⟩ := h
  exact hn

theorem not_uses_nil : ¬ Uses name [] := by
  rintro ⟨use, hu, hi⟩
  exact hu.ne_nil (List.infix_nil.1 hi)

theorem uses_cons_iff (hc : c ≠ ':') (hA : c ≠ 'A') : Uses name (c :: cs) ↔ Uses name cs :=
  exists_congr fun _ => and_congr_right fun hu => hu.infix_cons_iff hc hA

/-- No use begins with some characters in front. -/
theorem uses_append_left (h : ∀ c ∈ a, c ≠ ':' ∧ c ≠ 'A') : Uses name (a ++ b) ↔ Uses name b :=
  exists_congr fun _ => and_congr_right fun hu => hu.infix_append_iff h

end Front

/-! ### Array types -/

/-- A type is a name with any number of arrays around it. -/
inductive ArrayType (name : String) : String → Prop where
  | self : ArrayType name name
  | suffix {type : String} (h : ArrayType name type) : ArrayType name (type ++ "[]")
  | wrapper {type : String} (h : ArrayType name type) : ArrayType name ("Array<" ++ type ++ ">")

/-- A type begins with its name or with the bracket of an array. -/
theorem ArrayType.exists_rest {name type : String} (h : ArrayType name type) :
    ∃ rest, type = name ++ rest ∨ type = "Array<" ++ rest := by
  induction h with
  | self => exact ⟨"", .inl (by simp)⟩
  | suffix _ ih =>
    obtain ⟨rest, rfl | rfl⟩ := ih
    · exact ⟨rest ++ "[]", .inl (String.append_assoc ..)⟩
    · exact ⟨rest ++ "[]", .inr (String.append_assoc ..)⟩
  | @wrapper type _ _ => exact ⟨type ++ ">", .inr (String.append_assoc ..)⟩

/-- A use at the head of a text is one of its uses, and the others come behind its name. -/
theorem UseAt.uses_iff {introduction name' rest cs name : List Char}
    (h : UseAt introduction name' rest cs) : Uses name cs ↔ name = name' ∨ Uses name rest := by
  have hcs := @mem_fieldTypesFrom_iff cs (String.ofList name)
  have hrest := @mem_fieldTypesFrom_iff rest (String.ofList name)
  rw [h.fieldTypesFrom_eq, List.mem_cons, hrest, String.toList_ofList] at hcs
  have hname : String.ofList name = String.ofList name' ↔ name = name' :=
    ⟨fun h => by simpa using congrArg String.toList h, congrArg _⟩
  rw [← hcs, hname]

/-- No name is used between an introduction and the bracket of an array. -/
theorem uses_array_iff {introduction more name : List Char}
    (hi : introduction ∈ typeIntroductions) :
    Uses name (introduction ++ ("Array<".toList ++ more)) ↔
      Uses name ("Array<".toList ++ more) := by
  have hat : ∀ use, FieldUse name use → ¬ use <+: introduction ++ ("Array<".toList ++ more) := by
    intro use hu hp
    obtain ⟨introduction', rest, hm, hn, hr, heq⟩ := exists_useAt_iff.2 ⟨use, hu, hp⟩
    obtain ⟨d, ds, rfl, hd, hlt⟩ := exists_head_of_endsFieldType hr
    have hname : ['A', 'r', 'r', 'a', 'y'] ++ '<' :: more = name ++ d :: ds :=
      eq_of_introductions hi hm heq
    exact hlt (eq_of_append_cons (forall_of_all (by decide)) hn.parts (by decide) hd hname).2.symm
  refine ⟨?_, fun h => h.mono (List.suffix_append _ _).isInfix⟩
  rintro ⟨use, hu, hin⟩
  exact ⟨use, hu, (hu.prefix_or_infix hi hin).resolve_left (hat use hu)⟩

/-- **The type of a field uses its name and no other one.** -/
theorem ArrayType.uses_iff {name type : String} (h : ArrayType name type)
    (hn : IsTypeName name.toList) {other introduction tail : List Char}
    (hi : introduction ∈ typeIntroductions) (ht : endsFieldType tail = true)
    (hc : ∀ c ∈ tail, c ≠ ':' ∧ c ≠ 'A') :
    Uses other (introduction ++ (type.toList ++ tail)) ↔ other = name.toList := by
  induction h generalizing introduction tail with
  | self =>
    rw [UseAt.uses_iff ⟨hi, hn, ht, rfl⟩, or_iff_left]
    rw [← List.append_nil tail, uses_append_left hc]
    exact not_uses_nil
  | suffix _ ih =>
    have hs : endsFieldType ('[' :: ']' :: tail) = true := by rwa [endsFieldType]
    have heq := @ih introduction ('[' :: ']' :: tail) hi hs (by simpa using hc)
    simpa [String.toList_append] using heq
  | @wrapper type _ ih =>
    have heq := @ih "Array<".toList ('>' :: tail) (by decide) rfl (by simpa using hc)
    rw [← heq, ← uses_array_iff hi]
    simp [String.toList_append]

end SoapTypes
