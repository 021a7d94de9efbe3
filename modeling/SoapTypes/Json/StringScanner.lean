import SoapTypes.Json.Complaint

/-!
# Strings of a document

`scanString` reads a string behind its opening quote. A backslash with a letter stands for a control
or for itself, a backslash with `u` for a UTF-16 unit; a pair of surrogates is one character. Half of
a pair is no character, and texts consist of characters: it is read as U+FFFD, so that documents
which write different halves are read alike.
-/

namespace SoapTypes.Json

/-- The value of a hexadecimal digit of either case. -/
def hexValue? (c : Char) : Option Nat :=
  if '0' ≤ c ∧ c ≤ '9' then some (c.toNat - 0x30)
  else if 'a' ≤ c ∧ c ≤ 'f' then some (c.toNat - 0x57)
  else if 'A' ≤ c ∧ c ≤ 'F' then some (c.toNat - 0x37)
  else none

/-- The UTF-16 unit that four hexadecimal digits write. -/
def unit? (a b c d : Char) : Option Nat := do
  let a ← hexValue? a
  let b ← hexValue? b
  let c ← hexValue? c
  let d ← hexValue? d
  return 0x1000 * a + 0x100 * b + 0x10 * c + d

/-- Whether a unit is the first one of a pair. -/
def isHighSurrogate (unit : Nat) : Bool := 0xD800 ≤ unit && unit < 0xDC00

/-- Whether a unit is the second one of a pair. -/
def isLowSurrogate (unit : Nat) : Bool := 0xDC00 ≤ unit && unit < 0xE000

/-- The character of a unit; half a pair has none and becomes the replacement character. -/
def ofUnit (unit : Nat) : Char :=
  if isHighSurrogate unit || isLowSurrogate unit then Char.ofNat 0xFFFD else Char.ofNat unit

/-- The character of a pair of surrogates. -/
def ofSurrogates (high low : Nat) : Char :=
  Char.ofNat (0x10000 + 0x400 * (high - 0xD800) + (low - 0xDC00))

/-- The character that a letter behind a backslash stands for. -/
def plainEscape? (c : Char) : Option Char :=
  if c = '"' then some '"'
  else if c = '\\' then some '\\'
  else if c = '/' then some '/'
  else if c = 'b' then some '\x08'
  else if c = 'f' then some '\x0c'
  else if c = 'n' then some '\n'
  else if c = 'r' then some '\r'
  else if c = 't' then some '\t'
  else none

/-- What `\u` stands for, given the characters behind it, and how many of them belong to it: four
hexadecimal digits with at least one more character behind them. A high surrogate takes the escape
of a low one with it if that follows and is not the end either. A fault comes with its distance from
the `u`. -/
def unicodeEscape : List Char → Except (Complaint × Nat) (Char × Nat)
  | a :: b :: c :: d :: next :: rest =>
    match unit? a b c d with
    | none => .error (.badUnicodeEscape, 0)
    | some unit =>
      match isHighSurrogate unit, next :: rest with
      | true, '\\' :: 'u' :: a' :: b' :: c' :: d' :: _ :: _ =>
        match unit? a' b' c' d' with
        | none => .error (.badUnicodeEscape, 6)
        | some low =>
          if isLowSurrogate low then .ok (ofSurrogates unit low, 10) else .ok (ofUnit unit, 4)
      | _, _ => .ok (ofUnit unit, 4)
  | _ => .error (.badUnicodeEscape, 0)

/-- What an escape stands for, given its letter and the characters behind it, and how many
characters from the letter on belong to it. A fault comes with its distance from the backslash. -/
def escape (letter : Char) (rest : List Char) : Except (Complaint × Nat) (Char × Nat) :=
  if letter = 'u' then
    match unicodeEscape rest with
    | .ok (c, length) => .ok (c, length + 1)
    | .error (complaint, distance) => .error (complaint, distance + 1)
  else
    match plainEscape? letter with
    | some c => .ok (c, 1)
    | none => .error (.badEscape, 0)

/-- A scanned string with one more character in front. -/
def consChar (c : Char) : Except ReadFault (List Char × Nat) → Except ReadFault (List Char × Nat)
  | .ok (cs, stop) => .ok (c :: cs, stop)
  | .error fault => .error fault

/-- Scan the rest of a string that was opened at `start`, from position `pos` on: its characters
and the position behind its closing quote. The first `skip` characters belong to the escape before
them. -/
def scanString (start : Nat) :
    (skip : Nat) → (pos : Nat) → List Char → Except ReadFault (List Char × Nat)
  | _, _, [] => .error ⟨.unterminatedString, start⟩
  | skip + 1, pos, _ :: cs => scanString start skip (pos + 1) cs
  | 0, pos, c :: cs =>
    if c = '"' then .ok ([], pos + 1)
    else if c = '\\' then
      match cs with
      | [] => .error ⟨.unterminatedString, start⟩
      | letter :: rest =>
        match escape letter rest with
        | .ok (escaped, length) => consChar escaped (scanString start length (pos + 1) cs)
        | .error (complaint, distance) => .error ⟨complaint, pos + distance⟩
    else if c ≤ '\x1f' then .error ⟨.controlCharacter, pos⟩
    else consChar c (scanString start 0 (pos + 1) cs)

end SoapTypes.Json
