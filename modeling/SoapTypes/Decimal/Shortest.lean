import SoapTypes.Decimal.Binary64

/-!
# Shortest decimals

The decimal with the fewest digits that reads back to a given number of the 64-bit binary format.
For each count of digits there is a grid of decimals; a number lies between two neighbours on it.
The first grid with a neighbour that reads back decides the count; of two such neighbours the
nearer is taken, and of two equally near ones the one with the even last digit.
-/

namespace SoapTypes

/-- The decimal `digits * 10^exponent`. -/
structure Decimal where
  digits : Nat
  exponent : Int
  deriving DecidableEq, Repr, Inhabited

namespace Decimal

/-- The exponent of the leading digit of a positive fraction below one, found among at most
`steps` more places behind the point. -/
def leadingPlaceBelowOne (numerator denominator : Nat) : (steps : Nat) → (place : Nat) → Int
  | 0, place => -(place : Int)
  | steps + 1, place =>
    if denominator ≤ numerator then -(place : Int)
    else leadingPlaceBelowOne (numerator * 10) denominator steps (place + 1)

/-- The exponent of the leading digit of a positive fraction. -/
def leadingPlace (numerator denominator : Nat) : Int :=
  if denominator ≤ numerator then (Binary64.decimalLength (numerator / denominator) : Int) - 1
  else leadingPlaceBelowOne numerator denominator 400 0

/-- The neighbour of a positive number on the grid `10^exponent` that reads back to it, if any:
the nearer one first. -/
def onGrid? (number : Binary64) (numerator denominator : Nat) (exponent : Int) : Option Decimal :=
  let (n, d) := Binary64.scaled numerator denominator 10 (-exponent)
  let near := Binary64.roundDiv n d
  let far := if near = n / d then near + 1 else n / d
  let readsBack (digits : Nat) : Bool := Binary64.ofDecimal false digits exponent == number
  if readsBack near then some ⟨near, exponent⟩
  else if readsBack far then some ⟨far, exponent⟩
  else none

/-- Move the final zeros of the digits into the exponent. -/
def stripZeros : (fuel : Nat) → Decimal → Decimal
  | 0, x => x
  | fuel + 1, x =>
    if x.digits ≠ 0 ∧ x.digits % 10 = 0 then stripZeros fuel ⟨x.digits / 10, x.exponent + 1⟩
    else x

/-- The shortest decimal that reads back to `m * 2^q` with `m` positive. Seventeen digits always
suffice. -/
def shortest (m : Nat) (q : Int) : Decimal :=
  let (n, d) := Binary64.scaled m 1 2 q
  let place := leadingPlace n d
  let number := Binary64.ofFraction false n d
  let found := (List.range 17).findSome? fun more : Nat => onGrid? number n d (place - more)
  stripZeros 20 (found.getD ⟨0, 0⟩)

/-- How a decimal is laid out: the leading places that are written positionally, and the number of
digits that an exponent has at least. -/
structure Layout where
  positionalFrom : Int
  positionalBelow : Int
  exponentWidth : Nat

/-- Zeros in a row. -/
def zeros (n : Nat) : String := String.ofList (List.replicate n '0')

/-- An exponent with its sign and no fewer than `width` digits. -/
def Layout.exponent (layout : Layout) (e : Int) : String :=
  let digits := Nat.repr e.natAbs
  (if e < 0 then "e-" else "e+") ++ zeros (layout.exponentWidth - digits.length) ++ digits

/-- The text of a positive decimal. Positional notation always shows a digit behind the point. -/
def Layout.render (layout : Layout) (x : Decimal) : String :=
  let digits := Nat.toDigits 10 x.digits
  let place : Int := (digits.length : Int) - 1 + x.exponent
  if layout.positionalFrom ≤ place ∧ place < layout.positionalBelow then
    if 0 ≤ x.exponent then String.ofList digits ++ zeros x.exponent.toNat ++ ".0"
    else if 0 ≤ place then
      let whole := place.toNat + 1
      String.ofList (digits.take whole) ++ "." ++ String.ofList (digits.drop whole)
    else "0." ++ zeros (-place - 1).toNat ++ String.ofList digits
  else
    let fraction := digits.drop 1
    String.ofList (digits.take 1) ++
      (if fraction.isEmpty then "" else "." ++ String.ofList fraction) ++ layout.exponent place

end Decimal

end SoapTypes
