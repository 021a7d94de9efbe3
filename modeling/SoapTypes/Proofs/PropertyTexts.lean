import SoapTypes.Json.Reader
import SoapTypes.Proofs.QuotedProperties

/-!
# What the text of a property says

An identifier is the text of its property, and every other name is written as a string of a
document, in printable ASCII. So the name can be read back from the text, and different names have
different texts. The one exception is an identifier with a line break behind it: it counts as bare
and takes the break into its text.

* `Json.read?_quoted`: a document that is a quoted text is read as the text.
* `Text.isBare_iff`: which names are bare.
* `Shape.ReadsBack` says that a name can be read back from a text.
* `Shape.property_texts_read_back`: what the text of a name says, for all names.
* `Shape.id_on_two_lines`: a name that takes a line break into its text.
-/

namespace SoapTypes

open Text

namespace Json

/-! ### A document that is a quoted text -/

/-- A quoted text is one token, up to its closing quote. -/
theorem Token.first_quoted (pos : Nat) (s : String) (rest : List Char) :
    Token.first pos '"' (s.toList.flatMap quotedChar ++ '"' :: rest) =
      (.string s, (s.toList.flatMap quotedChar).length + 2) := by
  have hstop : ∀ length, pos + 1 + length + 1 - pos = length + 2 := by omega
  simp only [Token.first, Char.reduceEq, if_false, if_true, scanString_quoted, hstop,
    String.ofList_toList]

/-- The characters that belong to the token before them are passed over. -/
theorem Token.scanFrom_append {skip : Nat} (pos : Nat) {read : List Char} (rest : List Char)
    (h : read.length = skip) :
    Token.scanFrom skip pos (read ++ rest) = Token.scanFrom 0 (pos + skip) rest := by
  induction read generalizing skip pos with
  | nil =>
    obtain rfl : 0 = skip := h
    rfl
  | cons c read ih =>
    obtain ⟨n, rfl⟩ : ∃ n, skip = n + 1 := ⟨read.length, by simpa using h.symm⟩
    rw [List.cons_append, Token.scanFrom, ih (pos + 1) (by simpa using h)]
    congr 1
    omega

/-- The tokens of a text with a quoted text at its head. -/
theorem Token.scanFrom_quoted (pos : Nat) (s : String) (rest : List Char) :
    Token.scanFrom 0 pos ((quoted s).toList ++ rest) =
      (pos, .string s) :: Token.scanFrom 0 (pos + (quoted s).toList.length) rest := by
  have hspace : isSpace '"' = false := by decide
  have hread : (s.toList.flatMap quotedChar ++ ['"']).length =
      (s.toList.flatMap quotedChar).length + 1 := List.length_append
  have hnext := Token.scanFrom_append (pos + 1) rest hread
  rw [List.append_assoc, List.singleton_append] at hnext
  rw [toList_quoted, List.cons_append, List.append_assoc, List.singleton_append, Token.scanFrom,
    hspace, Token.first_quoted]
  simp only [Bool.false_eq_true, if_false, hnext, List.length_cons, hread]
  congr 2
  omega

/-- **A document that is a quoted text is read as the text.** -/
theorem read?_quoted (s : String) : read? (quoted s) = .ok (.text s) := by
  have htokens : Token.scan (quoted s).toList = [(0, .string s)] := by
    have h := Token.scanFrom_quoted 0 s []
    rwa [List.append_nil] at h
  have hmark : (quoted s).toList.head? ≠ some '\ufeff' := by simp
  simp only [read?, if_neg hmark, htokens]
  rfl

end Json

namespace Text

/-! ### Bare names -/

theorem printed_of_isIdentifierPart {c : Char} (h : isIdentifierPart c = true) :
    ' ' ≤ c ∧ c ≤ '~' := by
  simp only [isIdentifierPart, isIdentifierStart, isLetter, isAsciiDigit, Bool.or_eq_true,
    Bool.and_eq_true, decide_eq_true_eq, beq_iff_eq] at h
  rcases h with (((h | h) | rfl) | rfl) | h
  · exact ⟨Char.le_trans (by decide) h.1, Char.le_trans h.2 (by decide)⟩
  · exact ⟨Char.le_trans (by decide) h.1, Char.le_trans h.2 (by decide)⟩
  · decide
  · decide
  · exact ⟨Char.le_trans (by decide) h.1, Char.le_trans h.2 (by decide)⟩

theorem printed_of_isIdentifier {s : String} (h : isIdentifier s.toList = true) : Printed s :=
  fun c hc => printed_of_isIdentifierPart (isIdentifierPart_of_isIdentifier h c hc)

/-- An identifier with a line break behind it. -/
def Broken (name : String) : Prop :=
  ∃ identifier : String, isIdentifier identifier.toList = true ∧ name = identifier ++ "\n"

theorem Broken.break_mem {name : String} (h : Broken name) : '\n' ∈ name.toList := by
  obtain ⟨identifier, -, rfl⟩ := h
  simp [String.toList_append]

/-- **Which names are bare**: identifiers, and identifiers with a line break behind them. -/
theorem isBare_iff {name : String} :
    isBare name = true ↔ isIdentifier name.toList = true ∨ Broken name := by
  constructor
  · intro hb
    rw [isBare, withoutFinalBreak] at hb
    split at hb
    · rename_i hl
      obtain ⟨front, hf⟩ := List.getLast?_eq_some_iff.1 hl
      rw [hf, List.dropLast_concat] at hb
      refine .inr ⟨String.ofList front, by simpa using hb, ?_⟩
      rw [← String.toList_inj, hf]
      simp [String.toList_append]
    · exact .inl hb
  · rintro (hi | ⟨identifier, hi, rfl⟩)
    · rwa [isBare, withoutFinalBreak_of_oneLine (printed_of_isIdentifier hi).oneLine]
    · rw [isBare, String.toList_append]
      simpa [withoutFinalBreak] using hi

end Text

namespace Shape

/-! ### Names and their texts -/

/-- A name can be read back from the text of its property: the text is the name, which is an
identifier, or it is a string of a document, from quote to quote and in printable ASCII, that is
read as the name. -/
def ReadsBack (text name : String) : Prop :=
  (isIdentifier name.toList = true ∧ text = name) ∨
    (isIdentifier name.toList = false ∧ (∃ written, text = "\"" ++ written ++ "\"") ∧
      Printed text ∧ Json.read? text = .ok (.text name))

theorem ReadsBack.printed {text name : String} (h : ReadsBack text name) : Printed text := by
  rcases h with ⟨hi, rfl⟩ | ⟨-, -, hp, -⟩
  · exact printed_of_isIdentifier hi
  · exact hp

theorem readsBack_quoted {name : String} (h : isIdentifier name.toList = false) :
    ReadsBack (quoted name) name := by
  refine .inr ⟨h, ⟨String.ofList (name.toList.flatMap quotedChar), ?_⟩, printed_quoted name,
    Json.read?_quoted name⟩
  rw [← String.toList_inj]
  simp [String.toList_append]

/-- A name is its own text exactly if it is bare: no name is its own written form. -/
theorem propertyName_eq_self_iff {name : String} :
    propertyName .asNeeded name = name ↔ isBare name = true := by
  by_cases hb : isBare name = true
  · exact iff_of_true (if_pos hb) hb
  · rw [propertyName, if_neg hb]
    exact iff_of_false (indent_iterate_ne_quoted name 0).symm hb

/-- A name that is not broken can be read back. -/
theorem readsBack_of_not_broken {name : String} (h : ¬ Broken name) :
    ReadsBack (propertyName .asNeeded name) name := by
  cases hi : isIdentifier name.toList with
  | true => exact .inl ⟨hi, propertyName_eq_self_iff.2 (isBare_iff.2 (.inl hi))⟩
  | false =>
    have hb : ¬ isBare name = true := by simp [isBare_iff, hi, h]
    rw [propertyName, if_neg hb]
    exact readsBack_quoted hi

/-- **What property texts say.** Exactly identifiers, and identifiers with a line break behind them,
are their own texts. Apart from the latter, every name can be read back from its text, which is in
printable ASCII and stands on one line; the latter cannot, and their texts have the break. Different
names have different texts without exception. -/
theorem property_texts_read_back (name : String) :
    (propertyName .asNeeded name = name ↔ isIdentifier name.toList = true ∨ Broken name) ∧
      (ReadsBack (propertyName .asNeeded name) name ↔ ¬ Broken name) ∧
      (Printed (propertyName .asNeeded name) ↔ ¬ Broken name) ∧
      (OneLine (propertyName .asNeeded name) ↔ ¬ Broken name) ∧
      ∀ other, propertyName .asNeeded other = propertyName .asNeeded name ↔ other = name := by
  have hself : propertyName .asNeeded name = name ↔
      isIdentifier name.toList = true ∨ Broken name := propertyName_eq_self_iff.trans isBare_iff
  -- each of these leads to the next one, and the last one back to the first
  have hback : ¬ Broken name → ReadsBack (propertyName .asNeeded name) name :=
    readsBack_of_not_broken
  have hprinted : ReadsBack (propertyName .asNeeded name) name →
      Printed (propertyName .asNeeded name) := ReadsBack.printed
  have hone : Printed (propertyName .asNeeded name) → OneLine (propertyName .asNeeded name) :=
    Printed.oneLine
  have hwhole : OneLine (propertyName .asNeeded name) → ¬ Broken name := by
    intro ho hb
    rw [hself.2 (.inr hb)] at ho
    exact ho hb.break_mem
  exact ⟨hself, ⟨fun h => hwhole (hone (hprinted h)), hback⟩,
    ⟨fun h => hwhole (hone h), fun h => hprinted (hback h)⟩,
    ⟨hwhole, fun h => hone (hprinted (hback h))⟩, fun other => propertyName_injective.eq_iff⟩

/-- A quoted text has the units of its characters, a pair of them beyond the first plane. -/
example : propertyName .asNeeded "é\t\"😀" = "\"\\u00e9\\t\\\"\\ud83d\\ude00\"" := by decide

/-- **A name that takes a line break into its text**: it is neither an identifier nor written as a
string, and its property stands on two lines. -/
theorem id_on_two_lines :
    propertyName .asNeeded "id\n" = "id\n" ∧
      ¬ ReadsBack (propertyName .asNeeded "id\n") "id\n" ∧
      ¬ OneLine (propertyName .asNeeded "id\n") ∧
      render .asNeeded [("id\n", .leaf none "string;")] = "\x7b\n    id\n: string;\n\x7d" := by
  have hbreak : ¬ OneLine (propertyName .asNeeded "id\n") := by decide
  exact ⟨by decide, fun h => hbreak h.printed.oneLine, hbreak, by decide⟩

end Shape

end SoapTypes
