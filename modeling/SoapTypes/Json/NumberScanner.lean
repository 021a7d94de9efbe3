import SoapTypes.Json.Value
import SoapTypes.Text.Identifier

/-!
# Numbers of a document

`scanNumber?` reads the longest number at the head of a list of characters.
-/

namespace SoapTypes.Json

/-- The digits at the head of a list. -/
def leadingDigits (cs : List Char) : List Char := cs.takeWhile Text.isAsciiDigit

/-- The number that decimal digits write. -/
def digitsValue (cs : List Char) : Nat :=
  cs.foldl (fun value c => 10 * value + (c.toNat - 0x30)) 0

/-- The digits of a whole number at the head of a list: a zero alone, or digits without a leading
zero. -/
def wholeDigits (cs : List Char) : List Char :=
  match cs with
  | '0' :: _ => ['0']
  | _ => leadingDigits cs

/-- The digits behind a point at the head of a list; none if no digit follows the point. -/
def fractionDigits : List Char → List Char
  | '.' :: cs => leadingDigits cs
  | _ => []

/-- The sign, the digits and the length of an exponent at the head of a list, if there is one with
at least one digit. -/
def exponentPart? : List Char → Option (Bool × List Char × Nat)
  | mark :: cs =>
    if mark = 'e' ∨ mark = 'E' then
      let (negative, width, rest) : Bool × Nat × List Char :=
        match cs with
        | '-' :: rest => (true, 1, rest)
        | '+' :: rest => (false, 1, rest)
        | _ => (false, 0, cs)
      let digits := leadingDigits rest
      if digits.isEmpty then none else some (negative, digits, 1 + width + digits.length)
    else none
  | [] => none

/-- The number at the head of a list of characters behind its sign, and its length. A point or an
exponent mark without digits does not belong to it. -/
def scanUnsigned? (negative : Bool) (cs : List Char) : Option (Json × Nat) :=
  let whole := wholeDigits cs
  if whole.isEmpty then none
  else
    let fraction := fractionDigits (cs.drop whole.length)
    let fractionLength := if fraction.isEmpty then 0 else fraction.length + 1
    let length := whole.length + fractionLength
    match exponentPart? (cs.drop length) with
    | some (below, digits, exponentLength) =>
      let exponent : Int := if below then -(digitsValue digits : Int) else digitsValue digits
      some (.real (Binary64.ofDecimal negative (digitsValue (whole ++ fraction))
        (exponent - fraction.length)), length + exponentLength)
    | none =>
      if fraction.isEmpty then
        let magnitude : Int := digitsValue whole
        some (.integer (if negative then -magnitude else magnitude), length)
      else
        some (.real (Binary64.ofDecimal negative (digitsValue (whole ++ fraction))
          (-(fraction.length : Int))), length)

/-- The number at the head of a list of characters, and its length. -/
def scanNumber? : List Char → Option (Json × Nat)
  | '-' :: cs => (scanUnsigned? true cs).map fun (value, length) => (value, length + 1)
  | cs => scanUnsigned? false cs

end SoapTypes.Json
