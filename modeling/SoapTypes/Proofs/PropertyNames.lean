import SoapTypes.Json.StringScanner
import SoapTypes.Proofs.TextLines

/-!
# Property names read back

A property name is written as it is or as a quoted text. The string scanner of documents reads a
quoted text back, whatever stands behind it.

* `scanString_quoted`: the scanner stops behind the closing quote and has read the text.
* `Text.printed_quoted`: a quoted text holds nothing but printable ASCII.
* `propertyName_injective`: different names have different property texts.
* `splitProperty` cuts a line behind its property name.
-/

namespace SoapTypes

open Text

namespace Json

/-! ### Digits and units -/

theorem hexValue?_hexDigit : ∀ n, n < 16 → hexValue? (hexDigit n) = some n := by decide

theorem hexDigits_four (n : Nat) :
    hexDigits 4 n = [hexDigit (n / 16 / 16 / 16 % 16), hexDigit (n / 16 / 16 % 16),
      hexDigit (n / 16 % 16), hexDigit (n % 16)] := rfl

/-- Four hexadecimal digits are read back as their unit. -/
theorem unit?_hexDigits {n : Nat} (h : n < 0x10000) :
    unit? (hexDigit (n / 16 / 16 / 16 % 16)) (hexDigit (n / 16 / 16 % 16))
      (hexDigit (n / 16 % 16)) (hexDigit (n % 16)) = some n := by
  have hv := fun m => hexValue?_hexDigit (m % 16) (Nat.mod_lt m (by decide))
  simp only [unit?, hv, Option.bind_eq_bind, Option.bind_some, Option.pure_def, Option.some.injEq]
  omega

/-- No character is half a pair of surrogates. -/
theorem toNat_lt_or_gt (c : Char) :
    c.toNat < 0xD800 ∨ (0xDFFF < c.toNat ∧ c.toNat < 0x110000) := c.valid

theorem ofUnit_toNat (c : Char) : ofUnit c.toNat = c := by
  have hc := toNat_lt_or_gt c
  have hs : (isHighSurrogate c.toNat || isLowSurrogate c.toNat) = false := by
    simp only [isHighSurrogate, isLowSurrogate, Bool.or_eq_false_iff, Bool.and_eq_false_iff,
      decide_eq_false_iff_not]
    omega
  rw [ofUnit, hs]
  exact Char.ofNat_toNat c

/-! ### Escapes -/

/-- A unit of its own is read as its character. -/
theorem unicodeEscape_unit {c : Char} (h : c.toNat < 0x10000) {rest : List Char}
    (hr : rest ≠ []) : unicodeEscape (hexDigits 4 c.toNat ++ rest) = .ok (c, 4) := by
  have hc := toNat_lt_or_gt c
  have hs : isHighSurrogate c.toNat = false := by
    simp only [isHighSurrogate, Bool.and_eq_false_iff, decide_eq_false_iff_not]
    omega
  obtain ⟨next, rest, rfl⟩ := List.exists_cons_of_ne_nil hr
  simp only [hexDigits_four, List.cons_append, List.nil_append, unicodeEscape, unit?_hexDigits h,
    hs, ofUnit_toNat]

theorem unicodeEscape_surrogates {high low : Nat} (hh : isHighSurrogate high = true)
    (hl : isLowSurrogate low = true) {rest : List Char} (hr : rest ≠ []) :
    unicodeEscape (hexDigits 4 high ++ '\\' :: 'u' :: (hexDigits 4 low ++ rest)) =
      .ok (ofSurrogates high low, 10) := by
  have hh' : high < 0x10000 := by
    simp only [isHighSurrogate, Bool.and_eq_true, decide_eq_true_eq] at hh
    omega
  have hl' : low < 0x10000 := by
    simp only [isLowSurrogate, Bool.and_eq_true, decide_eq_true_eq] at hl
    omega
  obtain ⟨next, rest, rfl⟩ := List.exists_cons_of_ne_nil hr
  simp only [hexDigits_four, List.cons_append, List.nil_append, unicodeEscape,
    unit?_hexDigits hh', unit?_hexDigits hl', hh, hl, if_true]

/-- The character of the surrogates of a character beyond the first plane is that character. -/
theorem exists_surrogates {c : Char} (h : ¬ c.toNat < 0x10000) :
    ∃ high low, utf16Units c = [high, low] ∧ isHighSurrogate high = true ∧
      isLowSurrogate low = true ∧ ofSurrogates high low = c := by
  have hc := toNat_lt_or_gt c
  refine ⟨_, _, if_neg h, ?_, ?_, ?_⟩
  · simp only [isHighSurrogate, Bool.and_eq_true, decide_eq_true_eq]
    omega
  · simp only [isLowSurrogate, Bool.and_eq_true, decide_eq_true_eq]
    omega
  · have hn : 0x10000 + 0x400 * (0xD800 + (c.toNat - 0x10000) / 0x400 - 0xD800) +
        (0xDC00 + (c.toNat - 0x10000) % 0x400 - 0xDC00) = c.toNat := by omega
    rw [ofSurrogates, hn]
    exact Char.ofNat_toNat c

/-- The written form of a character between quotes is the character itself, a backslash with a
letter, or a backslash with the units of the character. -/
theorem quotedChar_cases (c : Char) :
    (c ≠ '"' ∧ c ≠ '\\' ∧ ¬ c ≤ '\x1f' ∧ quotedChar c = [c]) ∨
      (∃ letter, letter ≠ 'u' ∧ plainEscape? letter = some c ∧ quotedChar c = ['\\', letter]) ∨
      quotedChar c = (utf16Units c).flatMap fun unit => '\\' :: 'u' :: hexDigits 4 unit := by
  unfold quotedChar
  split
  · exact Or.inr (Or.inl ⟨'"', by subst c; decide⟩)
  split
  · exact Or.inr (Or.inl ⟨'\\', by subst c; decide⟩)
  split
  · exact Or.inr (Or.inl ⟨'n', by subst c; decide⟩)
  split
  · exact Or.inr (Or.inl ⟨'r', by subst c; decide⟩)
  split
  · exact Or.inr (Or.inl ⟨'t', by subst c; decide⟩)
  split
  · exact Or.inr (Or.inl ⟨'b', by subst c; decide⟩)
  split
  · exact Or.inr (Or.inl ⟨'f', by subst c; decide⟩)
  split
  · rename_i hq hb _ _ _ _ _ hp
    refine Or.inl ⟨hq, hb, fun hle => ?_, rfl⟩
    exact absurd (Char.le_trans hp.1 hle) (by decide)
  · exact Or.inr (Or.inr rfl)

/-! ### Scanning -/

theorem scanString_skip (start skip pos : Nat) {read rest : List Char} (h : read.length = skip) :
    scanString start skip pos (read ++ rest) = scanString start 0 (pos + skip) rest := by
  induction read generalizing skip pos with
  | nil =>
    obtain rfl : 0 = skip := h
    rfl
  | cons c read ih =>
    obtain ⟨n, rfl⟩ : ∃ n, skip = n + 1 := ⟨read.length, by simpa using h.symm⟩
    rw [List.cons_append, scanString, ih n (pos + 1) (by simpa using h)]
    congr 1
    omega

/-- The scanner reads an escape and goes on behind it. -/
theorem scanString_escape {letter escaped : Char} {read rest : List Char}
    (h : escape letter (read ++ rest) = .ok (escaped, read.length + 1)) (start pos : Nat) :
    scanString start 0 pos ('\\' :: letter :: (read ++ rest)) =
      consChar escaped (scanString start 0 (pos + (read.length + 2)) rest) := by
  rw [scanString]
  simp only [h, show ('\\' : Char) ≠ '"' by decide, if_false, if_true]
  have hl : (letter :: read).length = read.length + 1 := rfl
  rw [← List.cons_append, scanString_skip start _ (pos + 1) hl]
  congr 2
  omega

/-- The scanner reads the written form of a character and goes on behind it. -/
theorem scanString_quotedChar (start pos : Nat) (c : Char) {rest : List Char} (hr : rest ≠ []) :
    scanString start 0 pos (quotedChar c ++ rest) =
      consChar c (scanString start 0 (pos + (quotedChar c).length) rest) := by
  rcases quotedChar_cases c with ⟨hq, hb, hx, h⟩ | ⟨letter, hu, he, h⟩ | h
  · obtain ⟨next, rest, rfl⟩ := List.exists_cons_of_ne_nil hr
    rw [h, List.singleton_append, scanString, if_neg hq, if_neg hb, if_neg hx]
    rfl
  · have h1 : escape letter ([] ++ rest) = .ok (c, 1) := by simp [escape, hu, he]
    rw [h]
    exact scanString_escape h1 start pos
  · -- one unit is read at once, a pair of surrogates as one character
    by_cases hc : c.toNat < 0x10000
    · have h1 : escape 'u' (hexDigits 4 c.toNat ++ rest) = .ok (c, 4 + 1) := by
        simp only [escape, if_true, unicodeEscape_unit hc hr]
      have hu : utf16Units c = [c.toNat] := if_pos hc
      rw [h, hu]
      simpa [hexDigits_four] using scanString_escape h1 start pos
    · obtain ⟨high, low, hu, hh, hl, ho⟩ := exists_surrogates hc
      have h10 := unicodeEscape_surrogates hh hl hr
      rw [ho] at h10
      have h1 : escape 'u' ((hexDigits 4 high ++ '\\' :: 'u' :: hexDigits 4 low) ++ rest) =
          .ok (c, 10 + 1) := by
        rw [List.append_assoc, List.cons_append, List.cons_append]
        simp only [escape, if_true, h10]
      rw [h, hu]
      simpa [hexDigits_four] using scanString_escape h1 start pos

/-- The scanner reads the written form of a text and stops behind the closing quote. -/
theorem scanString_quoted (start pos : Nat) (cs rest : List Char) :
    scanString start 0 pos (cs.flatMap quotedChar ++ '"' :: rest) =
      .ok (cs, pos + (cs.flatMap quotedChar).length + 1) := by
  induction cs generalizing pos with
  | nil => rfl
  | cons c cs ih =>
    rw [List.flatMap_cons, List.append_assoc, scanString_quotedChar start pos c (by simp), ih]
    simp [consChar, Nat.add_assoc]

end Json

namespace Text

/-- Different texts have different written forms. -/
theorem quoted_injective : Function.Injective quoted := by
  intro s t h
  have hc := congrArg String.toList h
  simp only [toList_quoted, List.cons.injEq, true_and] at hc
  have hs := Json.scanString_quoted 0 0 s.toList []
  rw [hc, Json.scanString_quoted] at hs
  simp only [Except.ok.injEq, Prod.mk.injEq] at hs
  exact (String.toList_inj.1 hs.1).symm

/-! ### Printable ASCII -/

/-- A text of printable ASCII: from the space to the tilde. -/
def Printed (s : String) : Prop := ∀ c ∈ s.toList, ' ' ≤ c ∧ c ≤ '~'

theorem Printed.oneLine {s : String} (h : Printed s) : OneLine s :=
  fun hm => absurd (h _ hm).1 (by decide)

theorem printed_hexDigit : ∀ n, n < 16 → ' ' ≤ hexDigit n ∧ hexDigit n ≤ '~' := by decide

theorem printed_hexDigits (width n : Nat) : ∀ c ∈ hexDigits width n, ' ' ≤ c ∧ c ≤ '~' := by
  induction width generalizing n with
  | zero => simp [hexDigits]
  | succ width ih =>
    exact List.forall_mem_append.2
      ⟨ih (n / 16), by simpa using printed_hexDigit (n % 16) (Nat.mod_lt n (by decide))⟩

theorem break_not_mem_hexDigits (width n : Nat) : '\n' ∉ hexDigits width n :=
  fun hm => absurd (printed_hexDigits width n _ hm).1 (by decide)

theorem printed_quotedChar (c : Char) : ∀ d ∈ quotedChar c, ' ' ≤ d ∧ d ≤ '~' := by
  unfold quotedChar
  -- seven characters with a letter of their own, then those that are written as they are
  iterate 7
    split
    · simp
  split
  · rename_i hc
    simpa using hc
  · intro d hd
    obtain ⟨unit, -, hd⟩ := List.mem_flatMap.1 hd
    rcases List.mem_cons.1 hd with rfl | hd
    · decide
    rcases List.mem_cons.1 hd with rfl | hd
    · decide
    exact printed_hexDigits 4 unit d hd

/-- The written form of a text holds nothing but printable ASCII. -/
theorem printed_quoted (s : String) : Printed (quoted s) := by
  have hquote : ' ' ≤ '"' ∧ '"' ≤ '~' := by decide
  intro d hd
  rw [toList_quoted, List.mem_cons, List.mem_append, List.mem_singleton, List.mem_flatMap] at hd
  rcases hd with rfl | ⟨c, -, hd⟩ | rfl
  · exact hquote
  · exact printed_quotedChar c d hd
  · exact hquote

/-- The written form of a text stands on one line. -/
theorem oneLine_quoted (s : String) : OneLine (quoted s) := (printed_quoted s).oneLine

/-! ### Bare names -/

theorem withoutFinalBreak_of_oneLine {s : String} (h : OneLine s) :
    withoutFinalBreak s.toList = s.toList := by
  rw [withoutFinalBreak, if_neg]
  exact fun hl => h (List.mem_of_getLast? hl)

/-- A bare name on one line is an identifier. -/
theorem isIdentifier_of_isBare {name : String} (h : OneLine name) (hb : isBare name = true) :
    isIdentifier name.toList = true := by
  rwa [isBare, withoutFinalBreak_of_oneLine h] at hb

/-- A quoted text is not bare, because of its quotes. -/
theorem isBare_quoted (s : String) : isBare (quoted s) = false := by
  have hstart : isIdentifierStart '"' = false := by decide
  rw [isBare, withoutFinalBreak_of_oneLine (oneLine_quoted s), toList_quoted, isIdentifier, hstart,
    Bool.false_and]

theorem isIdentifierPart_of_isIdentifier {cs : List Char} (h : isIdentifier cs = true) :
    ∀ c ∈ cs, isIdentifierPart c = true := by
  cases cs with
  | nil => simp
  | cons c cs =>
    simp only [isIdentifier, Bool.and_eq_true, List.all_eq_true] at h
    simpa [isIdentifierPart, h.1] using h.2

end Text

namespace Shape

/-! ### Property names -/

/-- A property text begins with a quote or like an identifier. -/
theorem exists_head_propertyName {name : String} (h : OneLine name) :
    ∃ c cs, (propertyName .asNeeded name).toList = c :: cs ∧
      (c = '"' ∨ isIdentifierStart c = true) := by
  by_cases hb : isBare name = true
  · have hi := isIdentifier_of_isBare h hb
    simp only [propertyName, hb, if_true]
    cases hn : name.toList with
    | nil => simp [hn, isIdentifier] at hi
    | cons c cs =>
      simp only [hn, isIdentifier, Bool.and_eq_true] at hi
      exact ⟨c, cs, rfl, Or.inr hi.1⟩
  · have ht : propertyName .asNeeded name = quoted name := if_neg hb
    rw [ht]
    exact ⟨'"', _, toList_quoted name, Or.inl rfl⟩

theorem oneLine_propertyName {name : String} (h : OneLine name) :
    OneLine (propertyName .asNeeded name) := by
  simp only [propertyName]
  split
  · exact h
  · exact oneLine_quoted name

/-- Different names have different property texts. -/
theorem propertyName_injective : Function.Injective (propertyName .asNeeded) := by
  intro a b h
  by_cases hba : isBare a = true <;> by_cases hbb : isBare b = true <;>
    simp only [propertyName, hba, hbb, if_true, if_false, Bool.false_eq_true] at h
  · exact h
  · rw [h, isBare_quoted] at hba
    cases hba
  · rw [← h, isBare_quoted] at hbb
    cases hbb
  · exact quoted_injective h

/-- The number of characters of the property text at the head of a line. -/
def propertyLength (cs : List Char) : Nat :=
  match cs with
  | '"' :: rest =>
    match Json.scanString 0 0 1 rest with
    | .ok (_, stop) => stop
    | .error _ => 0
  | _ => (cs.takeWhile isIdentifierPart).length

/-- Cut a line of an object type into its property text and what it says of the property. -/
def splitProperty (line : String) : Option (String × String) :=
  match line.toList.drop (propertyLength line.toList) with
  | ':' :: ' ' :: value =>
    some (String.ofList (line.toList.take (propertyLength line.toList)), String.ofList value)
  | _ => none

/-- A property and its value stand on the line that they are read from. -/
theorem eq_of_splitProperty {line property value : String}
    (h : splitProperty line = some (property, value)) : line = property ++ ": " ++ value := by
  unfold splitProperty at h
  split at h
  · rename_i rest hd
    obtain ⟨rfl, rfl⟩ := Prod.mk.inj (Option.some.inj h)
    have ht := List.take_append_drop (propertyLength line.toList) line.toList
    rw [hd] at ht
    rw [← String.toList_inj]
    simpa [String.toList_append] using ht.symm
  · cases h

theorem propertyLength_propertyName {name : String} (h : OneLine name) (value : List Char) :
    propertyLength ((propertyName .asNeeded name).toList ++ ':' :: value) =
      (propertyName .asNeeded name).toList.length := by
  by_cases hb : isBare name = true
  · have hi := isIdentifier_of_isBare h hb
    have hp := isIdentifierPart_of_isIdentifier hi
    have ht : (name.toList ++ ':' :: value).takeWhile isIdentifierPart = name.toList := by
      rw [List.takeWhile_append_of_pos hp, List.takeWhile_cons_of_neg (by decide), List.append_nil]
    simp only [propertyName, hb, if_true]
    unfold propertyLength
    split
    · rename_i rest hq
      have hm : isIdentifierPart '"' = true := by
        cases hn : name.toList with
        | nil => simp [hn, isIdentifier] at hi
        | cons c cs =>
          rw [hn, List.cons_append, List.cons.injEq] at hq
          exact hp '"' (by simp [hn, hq.1])
      exact absurd hm (by decide)
    · rw [ht]
  · have hs := Json.scanString_quoted 0 1 name.toList (':' :: value)
    simp only [propertyName, hb, Bool.false_eq_true, if_false, toList_quoted, propertyLength,
      List.cons_append, List.append_assoc, List.nil_append, hs, List.length_cons,
      List.length_append, List.length_nil]
    omega

/-- A line that begins with a property text is cut behind it. -/
theorem splitProperty_propertyName {name : String} (h : OneLine name) (value : String) :
    splitProperty (propertyName .asNeeded name ++ ": " ++ value) =
      some (propertyName .asNeeded name, value) := by
  have hl : (propertyName .asNeeded name ++ ": " ++ value).toList =
      (propertyName .asNeeded name).toList ++ ':' :: ' ' :: value.toList := by
    simp [String.toList_append]
  rw [splitProperty, hl, propertyLength_propertyName h, List.drop_left, List.take_left]
  simp

/-- A line that begins with neither a quote, an identifier nor a colon names no property. -/
theorem splitProperty_eq_none {line : String} {c : Char} {cs : List Char}
    (hl : line.toList = c :: cs) (hq : c ≠ '"') (hi : isIdentifierPart c = false)
    (hc : c ≠ ':') : splitProperty line = none := by
  have h0 : propertyLength (c :: cs) = 0 := by
    unfold propertyLength
    split
    · rename_i rest hr
      exact absurd (List.cons.inj hr).1 hq
    · rw [List.takeWhile_cons_of_neg (by simp [hi])]
      rfl
  rw [splitProperty, hl, h0, List.drop_zero]
  split
  · rename_i value hv
    exact absurd (List.cons.inj hv).1 hc
  · rfl

end Shape

end SoapTypes
