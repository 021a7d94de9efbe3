/-!
# Numerals

The texts that are read as integers: blanks around an optional sign and decimal digits of any
script, where one `_` may stand between two digits. There is a limit on the number of digits.
-/

namespace SoapTypes.Text

/-- White space around a numeral. -/
def isBlank (c : Char) : Bool :=
  let n := c.toNat
  (0x09 ≤ n && n ≤ 0x0D) || n == 0x20 || n == 0x85 || n == 0xA0 || n == 0x1680 ||
    (0x2000 ≤ n && n ≤ 0x200A) || n == 0x2028 || n == 0x2029 || n == 0x202F || n == 0x205F ||
    n == 0x3000

/-- The zeros of all scripts with decimal digits, as of version 14 of the character database; the
digits one to nine follow each of them. -/
def digitZeros : List Nat := [
  0x0030, 0x0660, 0x06F0, 0x07C0, 0x0966, 0x09E6, 0x0A66, 0x0AE6, 0x0B66, 0x0BE6, 0x0C66, 0x0CE6,
   0x0D66, 0x0DE6, 0x0E50, 0x0ED0, 0x0F20, 0x1040, 0x1090, 0x17E0, 0x1810, 0x1946, 0x19D0, 0x1A80,
   0x1A90, 0x1B50, 0x1BB0, 0x1C40, 0x1C50, 0xA620, 0xA8D0, 0xA900, 0xA9D0, 0xA9F0, 0xAA50, 0xABF0,
   0xFF10, 0x104A0, 0x10D30, 0x11066, 0x110F0, 0x11136, 0x111D0, 0x112F0, 0x11450, 0x114D0, 0x11650,
   0x116C0, 0x11730, 0x118E0, 0x11950, 0x11C50, 0x11D50, 0x11DA0, 0x16A60, 0x16AC0, 0x16B50,
   0x1D7CE, 0x1D7D8, 0x1D7E2, 0x1D7EC, 0x1D7F6, 0x1E140, 0x1E2F0, 0x1E950, 0x1FBF0]

/-- The value of a decimal digit of any script. -/
def digitValue? (c : Char) : Option Nat :=
  (digitZeros.find? fun z => z ≤ c.toNat && c.toNat ≤ z + 9).map (c.toNat - ·)

/-- Whether a character is a decimal digit of any script. -/
def isDecimalDigit (c : Char) : Bool := (digitValue? c).isSome

/-- Read digits with single underscores between them, behind a digit already read: `value` is the
number so far. -/
def readDigits (value : Nat) : List Char → Option Nat
  | [] => some value
  | '_' :: c :: cs =>
    match digitValue? c with
    | some d => readDigits (10 * value + d) cs
    | none => none
  | c :: cs =>
    match digitValue? c with
    | some d => readDigits (10 * value + d) cs
    | none => none

/-- Read a numeral without sign and blanks. -/
def readNatural? : List Char → Option Nat
  | [] => none
  | c :: cs =>
    match digitValue? c with
    | some d => readDigits d cs
    | none => none

/-- A list without the blanks at its ends. -/
def trimBlanks (cs : List Char) : List Char :=
  ((cs.dropWhile isBlank).reverse.dropWhile isBlank).reverse

/-- The greatest number of digits that a numeral may have, leading zeros included. -/
def digitLimit : Nat := 4300

/-- The integer that a text writes, if it is a numeral with no more digits than the limit. -/
def readInteger? (s : String) : Option Int :=
  if digitLimit < s.toList.countP isDecimalDigit then none
  else
    match trimBlanks s.toList with
    | '+' :: cs => (readNatural? cs).map fun n => (n : Int)
    | '-' :: cs => (readNatural? cs).map fun n => -(n : Int)
    | cs => (readNatural? cs).map fun n => (n : Int)

end SoapTypes.Text
