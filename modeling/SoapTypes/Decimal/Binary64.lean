/-!
# Numbers of the 64-bit binary format

A finite number is a natural number below `2^53` times a power of two whose exponent is at least
`-1074`, with a sign. `Binary64.ofDecimal` reads a decimal: it takes the nearest number of the
format, of two equally near ones the one with the even significand. Everything is exact arithmetic
on natural numbers.
-/

namespace SoapTypes

/-- A number of the 64-bit binary format; `finite negative m q` stands for `m * 2^q` or its
opposite. -/
inductive Binary64 where
  | nan
  | infinite (negative : Bool)
  | finite (negative : Bool) (significand : Nat) (exponent : Int)
  deriving DecidableEq, Repr, Inhabited

namespace Binary64

/-- The least exponent of the format. -/
def leastExponent : Int := -1074

/-- The greatest exponent of a finite number. -/
def greatestExponent : Int := 971

/-- Significands lie below this bound. -/
def significandBound : Nat := Nat.pow 2 53

/-- The fraction `numerator / denominator * base^exponent` as a numerator over a denominator. -/
def scaled (numerator denominator base : Nat) (exponent : Int) : Nat × Nat :=
  if 0 ≤ exponent then (numerator * Nat.pow base exponent.toNat, denominator)
  else (numerator, denominator * Nat.pow base (-exponent).toNat)

/-- The natural number nearest to a fraction, of two equally near ones the even one. -/
def roundDiv (numerator denominator : Nat) : Nat :=
  let floor := numerator / denominator
  let rest := numerator % denominator
  if 2 * rest < denominator then floor
  else if denominator < 2 * rest then floor + 1
  else if floor % 2 = 0 then floor else floor + 1

/-- The exponent with which a positive fraction has a significand of 53 bits, or the least one. -/
def exponentOf (numerator denominator : Nat) : Int :=
  let guess := max leastExponent ((numerator.log2 : Int) - denominator.log2 - 53)
  let (n, d) := scaled numerator denominator 2 (-guess)
  if n / d < significandBound then guess else guess + 1

/-- The number of the format nearest to a positive fraction. -/
def ofFraction (negative : Bool) (numerator denominator : Nat) : Binary64 :=
  let q := exponentOf numerator denominator
  let (n, d) := scaled numerator denominator 2 (-q)
  let m := roundDiv n d
  let (m, q) := if m = significandBound then (significandBound / 2, q + 1) else (m, q)
  if greatestExponent < q then infinite negative else finite negative m q

/-- How many decimal digits a number has. -/
def decimalLength (n : Nat) : Nat := (Nat.toDigits 10 n).length

/-- The number of the format nearest to `digits * 10^exponent`. The magnitudes that are infinite or
zero in any case are told apart first, so that no huge power is formed. -/
def ofDecimal (negative : Bool) (digits : Nat) (exponent : Int) : Binary64 :=
  let magnitude := (decimalLength digits : Int) + exponent
  if digits = 0 ∨ magnitude < -330 then finite negative 0 leastExponent
  else if 310 < magnitude then infinite negative
  else
    let (n, d) := scaled digits 1 10 exponent
    ofFraction negative n d

/-- Whether a number is zero, with either sign. -/
def isZero : Binary64 → Bool
  | .finite _ m _ => m == 0
  | _ => false

/-- The integer next to a finite number on the side of zero. -/
def truncate? : Binary64 → Option Int
  | .finite negative m q =>
    let (n, d) := scaled m 1 2 q
    let magnitude : Int := (n / d : Nat)
    some (if negative then -magnitude else magnitude)
  | _ => none

/-- The integer that a number is equal to. -/
def integral? : Binary64 → Option Int
  | .finite negative m q =>
    let (n, d) := scaled m 1 2 q
    let magnitude : Int := (n / d : Nat)
    if n % d = 0 then some (if negative then -magnitude else magnitude) else none
  | _ => none

end Binary64

end SoapTypes
