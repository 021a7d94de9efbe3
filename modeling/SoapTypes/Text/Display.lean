import SoapTypes.Text.Printable
import SoapTypes.Text.Quoted

/-!
# Displayed texts

The form in which a diagnostic shows a text: between single quotes, or between double quotes when
the text holds a single quote and no double one. The backslash and the quote in use stand behind a
backslash, the line break, the return and the tab are written by a letter, and every other character
that is not printable by its code point in two, four or eight hexadecimal digits.
-/

namespace SoapTypes.Text

/-- The single quote. -/
def singleQuote : Char := '\x27'

/-- The double quote. -/
def doubleQuote : Char := '"'

/-- The quote around a displayed text. -/
def displayQuote (cs : List Char) : Char :=
  if singleQuote ∈ cs ∧ doubleQuote ∉ cs then doubleQuote else singleQuote

/-- The displayed form of a character in a text between `quote`s. -/
def displayChar (quote c : Char) : List Char :=
  if c = quote ∨ c = '\\' then ['\\', c]
  else if c = '\n' then ['\\', 'n']
  else if c = '\r' then ['\\', 'r']
  else if c = '\t' then ['\\', 't']
  else if isPrintable c then [c]
  else if c.toNat < 0x100 then '\\' :: 'x' :: hexDigits 2 c.toNat
  else if c.toNat < 0x10000 then '\\' :: 'u' :: hexDigits 4 c.toNat
  else '\\' :: 'U' :: hexDigits 8 c.toNat

/-- A text as a diagnostic shows it. -/
def display (s : String) : String :=
  let cs := s.toList
  let quote := displayQuote cs
  String.ofList (quote :: (cs.flatMap (displayChar quote) ++ [quote]))

end SoapTypes.Text
