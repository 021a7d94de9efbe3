import Mathlib.Data.List.Basic
import SoapTypes.Json.StringScanner
import SoapTypes.Text.Identifier
import SoapTypes.Text.Quoted

/-!
# Literals as they are read

How a reader of a declaration file takes what stands between double quotes. A backslash begins an
escape, the first quote outside an escape is the closing one, and no line ends in between. A literal
is read as UTF-16 units.

* `ReadsEscape`, `ReadsRest` and `ReadsLiteral` are the grammar of literals.
* `readsRest_iff`: a text in front of a quote is read as itself exactly if it is `Verbatim`.
* `ReadsRest.length_le`: which quotes end a literal at the latest.
-/

namespace SoapTypes

open Text

/-- What two equal texts have behind a shorter front. -/
theorem List.exists_of_append_eq {α : Type} {a b c d : List α} (h : a ++ b = c ++ d)
    (hl : a.length ≤ c.length) : ∃ middle, c = a ++ middle ∧ b = middle ++ d := by
  rcases List.append_eq_append_iff.1 h with ⟨middle, hc, hb⟩ | ⟨middle, ha, hd⟩
  · exact ⟨middle, hc, hb⟩
  · -- the front is as long as the other one, and nothing is left
    have hm : middle = [] := by
      have := congrArg List.length ha
      rw [List.length_append] at this
      exact List.length_eq_zero_iff.1 (by omega)
    subst hm
    exact ⟨[], by simpa using ha.symm, by simpa using hd.symm⟩

namespace Literal

/-! ### Units -/

/-- The UTF-16 units of a text. -/
def units (cs : List Char) : List Nat := cs.flatMap utf16Units

/-- The UTF-16 units of a code point, which may be half a pair of surrogates. -/
def pointUnits (n : Nat) : List Nat :=
  if n < 0x10000 then [n] else [0xD800 + (n - 0x10000) / 0x400, 0xDC00 + (n - 0x10000) % 0x400]

@[simp] theorem units_nil : units [] = [] := rfl

@[simp] theorem units_cons (c : Char) (cs : List Char) :
    units (c :: cs) = utf16Units c ++ units cs := rfl

@[simp] theorem units_append (cs ds : List Char) : units (cs ++ ds) = units cs ++ units ds :=
  List.flatMap_append

theorem utf16Units_ne_nil (c : Char) : utf16Units c ≠ [] := by
  unfold utf16Units
  split <;> simp

/-- Only the quote has its unit. -/
theorem quote_notMem_utf16Units {c : Char} (h : c ≠ '"') : 0x22 ∉ utf16Units c := by
  unfold utf16Units
  split
  · intro hm
    exact h (Char.toNat_inj.1 (List.mem_singleton.1 hm).symm)
  · simp only [List.mem_cons, List.not_mem_nil, or_false]
    omega

theorem quote_notMem_units {cs : List Char} (h : '"' ∉ cs) : 0x22 ∉ units cs := by
  intro hm
  obtain ⟨c, hc, hu⟩ := List.mem_flatMap.1 hm
  exact quote_notMem_utf16Units (fun e => h (e ▸ hc)) hu

theorem length_le_units (cs : List Char) : cs.length ≤ (units cs).length := by
  induction cs with
  | nil => exact Nat.le_refl 0
  | cons c cs ih =>
    have hc := List.length_pos_of_ne_nil (utf16Units_ne_nil c)
    rw [units_cons, List.length_append, List.length_cons]
    omega

/-! ### The grammar of literals -/

/-- What ends a line. -/
def isLineEnd (c : Char) : Bool := c == '\n' || c == '\r' || c == '\u2028' || c == '\u2029'

/-- The unit of the control that a letter behind a backslash stands for. -/
def controlUnit? (c : Char) : Option Nat :=
  if c = 'b' then some 0x08
  else if c = 't' then some 0x09
  else if c = 'n' then some 0x0A
  else if c = 'v' then some 0x0B
  else if c = 'f' then some 0x0C
  else if c = 'r' then some 0x0D
  else none

/-- The number that hexadecimal digits write. -/
def hexNumber (digits : List Char) : Nat :=
  digits.foldl (fun n c => 0x10 * n + (Json.hexValue? c).getD 0) 0

/-- Reading an escape behind its backslash: the text, the units that the escape stands for, and what
stands behind it. -/
inductive ReadsEscape : List Char → List Nat → List Char → Prop
  /-- Two hexadecimal digits. -/
  | byte {a b : Char} {m n : Nat} {rest : List Char} (ha : Json.hexValue? a = some m)
      (hb : Json.hexValue? b = some n) : ReadsEscape ('x' :: a :: b :: rest) [0x10 * m + n] rest
  /-- Four hexadecimal digits. -/
  | unit {a b c d : Char} {n : Nat} {rest : List Char} (h : Json.unit? a b c d = some n) :
      ReadsEscape ('u' :: a :: b :: c :: d :: rest) [n] rest
  /-- Hexadecimal digits between braces. -/
  | point {digits rest : List Char} (hne : digits ≠ [])
      (hd : ∀ c ∈ digits, (Json.hexValue? c).isSome = true) (hl : hexNumber digits ≤ 0x10FFFF) :
      ReadsEscape ('u' :: '\x7b' :: (digits ++ '\x7d' :: rest)) (pointUnits (hexNumber digits)) rest
  /-- A zero without another digit behind it. -/
  | zero {rest : List Char} (h : ∀ c ∈ rest.head?, isAsciiDigit c = false) :
      ReadsEscape ('0' :: rest) [0] rest
  /-- The letter of a control. -/
  | control {c : Char} {n : Nat} {rest : List Char} (h : controlUnit? c = some n) :
      ReadsEscape (c :: rest) [n] rest
  /-- The end of a line, which is left out. -/
  | lineEnd {c : Char} {rest : List Char} (h : isLineEnd c = true) : ReadsEscape (c :: rest) [] rest
  /-- A return and a line break, which are left out together. -/
  | returnBreak {rest : List Char} : ReadsEscape ('\r' :: '\n' :: rest) [] rest
  /-- Any other character, which stands for itself. -/
  | other {c : Char} {rest : List Char} (hx : c ≠ 'x') (hu : c ≠ 'u')
      (hd : isAsciiDigit c = false) (hc : controlUnit? c = none) (hl : isLineEnd c = false) :
      ReadsEscape (c :: rest) (utf16Units c) rest

/-- A character that means itself between quotes: no quote, no backslash, no end of a line. The two
separators of lines and paragraphs do not end a line there. -/
def isVerbatim (c : Char) : Bool := c != '"' && c != '\\' && c != '\n' && c != '\r'

/-- Reading a literal behind its opening quote: the text, the units of the literal, and what stands
behind its closing quote. -/
inductive ReadsRest : List Char → List Nat → List Char → Prop
  | close {rest : List Char} : ReadsRest ('"' :: rest) [] rest
  | verbatim {c : Char} {cs rest : List Char} {read : List Nat} (hc : isVerbatim c = true)
      (h : ReadsRest cs read rest) : ReadsRest (c :: cs) (utf16Units c ++ read) rest
  | escape {cs behind rest : List Char} {escaped read : List Nat}
      (he : ReadsEscape cs escaped behind) (h : ReadsRest behind read rest) :
      ReadsRest ('\\' :: cs) (escaped ++ read) rest

/-- Reading a literal. -/
inductive ReadsLiteral : List Char → List Nat → List Char → Prop
  | quoted {cs rest : List Char} {read : List Nat} (h : ReadsRest cs read rest) :
      ReadsLiteral ('"' :: cs) read rest

/-- A text whose characters mean themselves between quotes. -/
def Verbatim (value : String) : Prop := ∀ c ∈ value.toList, isVerbatim c = true

instance (value : String) : Decidable (Verbatim value) :=
  decidable_of_iff (value.toList.all isVerbatim = true) List.all_eq_true

/-! ### What an escape reads -/

theorem ne_quote_of_hexValue? {c : Char} (h : (Json.hexValue? c).isSome = true) : c ≠ '"' := by
  rintro rfl
  exact absurd h (by decide)

theorem length_pointUnits_le (n : Nat) : (pointUnits n).length ≤ 2 := by
  unfold pointUnits
  split <;> simp

/-- An escape reads a quote of its own, or a text without quotes that has at least as many units as
the escape stands for. -/
theorem ReadsEscape.cases_quote {cs rest : List Char} {escaped : List Nat}
    (h : ReadsEscape cs escaped rest) :
    (cs = '"' :: rest ∧ escaped = [0x22]) ∨
      ∃ read, cs = read ++ rest ∧ '"' ∉ read ∧ escaped.length ≤ (units read).length := by
  -- a text without quotes has a unit for each of its characters at least
  have enough : ∀ read, '"' ∉ read → cs = read ++ rest → escaped.length ≤ read.length →
      ∃ read, cs = read ++ rest ∧ '"' ∉ read ∧ escaped.length ≤ (units read).length :=
    fun read hq hcs hl => ⟨read, hcs, hq, Nat.le_trans hl (length_le_units read)⟩
  cases h with
  | @byte a b m n rest ha hb =>
    have ha' : a ≠ '"' := ne_quote_of_hexValue? (by rw [ha]; rfl)
    have hb' : b ≠ '"' := ne_quote_of_hexValue? (by rw [hb]; rfl)
    refine .inr (enough ['x', a, b] ?_ rfl (by simp))
    simp [ha'.symm, hb'.symm]
  | @unit a b c d n rest hu =>
    simp only [Json.unit?, Option.bind_eq_bind, Option.bind_eq_some_iff] at hu
    obtain ⟨_, ha, _, hb, _, hc, _, hd, -⟩ := hu
    have ha' : a ≠ '"' := ne_quote_of_hexValue? (by rw [ha]; rfl)
    have hb' : b ≠ '"' := ne_quote_of_hexValue? (by rw [hb]; rfl)
    have hc' : c ≠ '"' := ne_quote_of_hexValue? (by rw [hc]; rfl)
    have hd' : d ≠ '"' := ne_quote_of_hexValue? (by rw [hd]; rfl)
    refine .inr (enough ['u', a, b, c, d] ?_ rfl (by simp))
    simp [ha'.symm, hb'.symm, hc'.symm, hd'.symm]
  | @point digits rest hne hd hl =>
    have hq : '"' ∉ digits := fun hm => ne_quote_of_hexValue? (hd _ hm) rfl
    refine .inr (enough ('u' :: '\x7b' :: (digits ++ ['\x7d'])) ?_ (by simp) ?_)
    · simp [hq]
    · have hp := length_pointUnits_le (hexNumber digits)
      simp only [List.length_cons, List.length_append]
      omega
  | zero h => exact .inr (enough ['0'] (by decide) rfl (by simp))
  | @control c n rest hc =>
    have hq : c ≠ '"' := by
      rintro rfl
      exact absurd hc (by simp [controlUnit?])
    exact .inr (enough [c] (by simp [hq.symm]) rfl (by simp))
  | @lineEnd c rest hl =>
    have hq : c ≠ '"' := by
      rintro rfl
      exact absurd hl (by decide)
    exact .inr (enough [c] (by simp [hq.symm]) rfl (by simp))
  | returnBreak => exact .inr (enough ['\r', '\n'] (by decide) rfl (by simp))
  | @other c rest =>
    by_cases hq : c = '"'
    · subst hq
      exact .inl ⟨rfl, rfl⟩
    · exact .inr ⟨[c], rfl, by simpa using Ne.symm hq, by simp⟩

/-! ### What a literal reads -/

theorem isVerbatim_iff {c : Char} :
    isVerbatim c = true ↔ c ≠ '"' ∧ c ≠ '\\' ∧ c ≠ '\n' ∧ c ≠ '\r' := by
  simp [isVerbatim, and_assoc]

/-- An escape in front of a quote reads a quote, this one or an earlier one, or it ends in front of
the quote. -/
theorem ReadsEscape.cases_append {cs rest behind : List Char} {escaped : List Nat}
    (h : ReadsEscape (cs ++ '"' :: rest) escaped behind) :
    (escaped = [0x22] ∧ (cs = [] ∨ ∃ left, cs = '"' :: left ∧ behind = left ++ '"' :: rest)) ∨
      ∃ read left, cs = read ++ left ∧ behind = left ++ '"' :: rest ∧ '"' ∉ read ∧
        escaped.length ≤ (units read).length := by
  rcases h.cases_quote with ⟨hcs, he⟩ | ⟨read, hcs, hq, hl⟩
  · refine .inl ⟨he, ?_⟩
    cases cs with
    | nil => exact .inl rfl
    | cons c cs =>
      obtain ⟨rfl, rfl⟩ := List.cons.inj hcs
      exact .inr ⟨cs, rfl, rfl⟩
  · right
    rcases List.append_eq_append_iff.1 hcs with ⟨left, rfl, hb⟩ | ⟨left, rfl, hb⟩
    · cases left with
      | nil => exact ⟨cs, [], by simp, by simpa using hb.symm, by simpa using hq, by simpa using hl⟩
      | cons c left =>
        -- the quote would stand in what the escape has read
        obtain ⟨rfl, -⟩ := List.cons.inj hb
        exact absurd (List.mem_append_right _ List.mem_cons_self) hq
    · exact ⟨read, left, rfl, hb, hq, hl⟩

/-- What is due after a step that has read some units: the units that were due and those of what the
step went past, without the units read. None of them is that of a quote if none was. -/
theorem exists_due {due past read after : List Nat} {cs : List Char}
    (h : read ++ after = due ++ (past ++ units cs)) (hl : read.length ≤ (due ++ past).length)
    (hd : 0x22 ∉ due) (hp : 0x22 ∉ past) :
    ∃ due', due ++ past = read ++ due' ∧ after = due' ++ units cs ∧ 0x22 ∉ due' := by
  rw [← List.append_assoc] at h
  obtain ⟨due', hdue, hafter⟩ := List.exists_of_append_eq h hl
  refine ⟨due', hdue, hafter, fun hm => ?_⟩
  have hm : 0x22 ∈ due ++ past := hdue ▸ List.mem_append_right _ hm
  exact (List.mem_append.1 hm).elim hd hp

/-- **A text that is read as itself.** Suppose that the reader stands in front of a text with a
quote behind it, and that what it reads are some units that are still due, none of them that of a
quote, and then the units of the text. Then nothing was due, no character of the text means anything
but itself, and the quote is the closing one.

Every escape adds to what is due, because it stands for fewer units than it is written with; and
nothing takes away from it, since the one escape that could, that of the quote, reads a unit that is
not due. -/
theorem ReadsRest.verbatim_of_eq {text rest : List Char} {read : List Nat}
    (h : ReadsRest text read rest) {due : List Nat} {cs behind : List Char}
    (ht : text = cs ++ '"' :: behind) (hr : read = due ++ units cs) (hd : 0x22 ∉ due) :
    due = [] ∧ (∀ c ∈ cs, isVerbatim c = true) ∧ rest = behind := by
  induction h generalizing due cs with
  | close =>
    obtain ⟨hdue, hcs⟩ := List.append_eq_nil_iff.1 hr.symm
    cases cs with
    | nil => exact ⟨hdue, by simp, (List.cons.inj ht).2⟩
    | cons c cs => exact absurd (List.append_eq_nil_iff.1 hcs).1 (utf16Units_ne_nil c)
  | @verbatim c tail rest read hc _ ih =>
    have hq := (isVerbatim_iff.1 hc).1
    cases cs with
    | nil => exact absurd (List.cons.inj ht).1 hq
    | cons c' cs =>
      obtain ⟨rfl, htail⟩ := List.cons.inj ht
      obtain ⟨due', hdue, hread, hd'⟩ :=
        exists_due hr (by simp) hd (quote_notMem_utf16Units hq)
      obtain ⟨rfl, hcs, hrest⟩ := ih htail hread hd'
      have hlen := congrArg List.length hdue
      simp only [List.length_append, List.length_nil] at hlen
      exact ⟨List.length_eq_zero_iff.1 (by omega), List.forall_mem_cons.2 ⟨hc, hcs⟩, hrest⟩
  | @escape tail next rest escaped read he _ ih =>
    cases cs with
    | nil => cases ht
    | cons c' cs =>
      obtain ⟨rfl, rfl⟩ := List.cons.inj ht
      rcases he.cases_append with ⟨rfl, -⟩ | ⟨done, left, rfl, rfl, hq, hl⟩
      · -- an escaped quote, where another unit is due
        cases due with
        | nil => cases hr
        | cons u due =>
          obtain ⟨rfl, -⟩ := List.cons.inj hr
          exact absurd List.mem_cons_self hd
      · have hsplit : due ++ units ('\\' :: (done ++ left)) =
            due ++ (units ('\\' :: done) ++ units left) := by simp
        have hshort : escaped.length ≤ (due ++ units ('\\' :: done)).length := by
          rw [List.length_append, units_cons, List.length_append]
          omega
        have hpast : '"' ∉ '\\' :: done := by simpa using hq
        obtain ⟨due', hdue, hread, hd'⟩ :=
          exists_due (hr.trans hsplit) hshort hd (quote_notMem_units hpast)
        obtain ⟨rfl, -, -⟩ := ih rfl hread hd'
        -- nothing more would be due, but the backslash is
        have hlen := congrArg List.length hdue
        have hb := List.length_pos_of_ne_nil (utf16Units_ne_nil '\\')
        simp only [List.length_append, List.length_nil, units_cons] at hlen
        omega

/-- **A text in front of a quote is read as itself exactly if it is verbatim**, and then up to this
quote. -/
theorem readsRest_iff {value : String} {behind rest : List Char} :
    ReadsRest (value.toList ++ '"' :: behind) (units value.toList) rest ↔
      Verbatim value ∧ rest = behind := by
  constructor
  · intro h
    obtain ⟨-, hv, hrest⟩ := h.verbatim_of_eq rfl (List.nil_append _).symm List.not_mem_nil
    exact ⟨hv, hrest⟩
  · rintro ⟨hv, rfl⟩
    unfold Verbatim at hv
    generalize value.toList = cs at hv ⊢
    induction cs with
    | nil => exact .close
    | cons c cs ih =>
      obtain ⟨hc, hcs⟩ := List.forall_mem_cons.1 hv
      exact .verbatim hc (ih hcs)

/-- What a literal has read has at least its units. -/
theorem ReadsRest.exists_append {text rest : List Char} {read : List Nat}
    (h : ReadsRest text read rest) :
    ∃ cs, text = cs ++ '"' :: rest ∧ read.length ≤ (units cs).length := by
  induction h with
  | close => exact ⟨[], rfl, Nat.le_refl 0⟩
  | @verbatim c tail rest read _ _ ih =>
    obtain ⟨cs, rfl, hl⟩ := ih
    refine ⟨c :: cs, rfl, ?_⟩
    simpa using hl
  | @escape tail next rest escaped read he _ ih =>
    obtain ⟨cs, rfl, hl⟩ := ih
    obtain ⟨done, rfl, hdone⟩ : ∃ done, tail = done ++ (cs ++ '"' :: rest) ∧
        escaped.length ≤ (units done).length := by
      rcases he.cases_quote with ⟨rfl, rfl⟩ | ⟨done, rfl, -, hdone⟩
      · exact ⟨['"'], rfl, Nat.le_refl 1⟩
      · exact ⟨done, rfl, hdone⟩
    refine ⟨'\\' :: (done ++ cs), by simp, ?_⟩
    simp only [units_cons, units_append, List.length_append]
    omega

/-- No literal goes past a quote that has no backslash in front of it. -/
theorem ReadsRest.length_le {text rest : List Char} {read : List Nat} (h : ReadsRest text read rest)
    {cs behind : List Char} (ht : text = cs ++ '"' :: behind) (hb : cs.getLast? ≠ some '\\') :
    behind.length ≤ rest.length := by
  induction h generalizing cs with
  | close =>
    cases cs with
    | nil => exact Nat.le_of_eq (by rw [(List.cons.inj ht).2])
    | cons c cs =>
      obtain ⟨-, rfl⟩ := List.cons.inj ht
      show behind.length ≤ (cs ++ '"' :: behind).length
      simp
      omega
  | @verbatim c tail rest read hc _ ih =>
    cases cs with
    | nil => exact absurd (List.cons.inj ht).1 (isVerbatim_iff.1 hc).1
    | cons c' cs =>
      apply ih (List.cons.inj ht).2
      intro hl
      apply hb
      rw [List.getLast?_cons, hl, Option.getD_some]
  | @escape tail next rest escaped read he _ ih =>
    cases cs with
    | nil => cases ht
    | cons c' cs =>
      obtain ⟨rfl, rfl⟩ := List.cons.inj ht
      -- the escape does not end behind the quote, because something stands in between
      obtain ⟨front, left, rfl, rfl⟩ : ∃ front left, cs = front ++ left ∧
          next = left ++ '"' :: behind := by
        rcases he.cases_append with ⟨-, rfl | ⟨left, rfl, rfl⟩⟩ | ⟨front, left, rfl, rfl, -⟩
        · exact absurd rfl hb
        · exact ⟨['"'], left, rfl, rfl⟩
        · exact ⟨front, left, rfl, rfl⟩
      apply ih rfl
      intro hl
      apply hb
      rw [← List.cons_append, List.getLast?_append, hl, Option.some_or]

end Literal

end SoapTypes
