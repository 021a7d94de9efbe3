import SoapTypes.Fault
import SoapTypes.Text.Numeral

/-!
# Limits on the number of passes

A limit is a positive integer. It may be given as a numeral or as a value of a document.
-/

namespace SoapTypes.PassLimit

/-- An integer that is a limit. -/
def ofInteger (n : Int) : Except LimitFault Int :=
  if n < 1 then .error (.belowOne n) else .ok n

/-- The limit that a text gives. -/
def ofText (s : String) : Except LimitFault Int :=
  match Text.readInteger? s with
  | none => .error (.notAnInteger (Text.display s))
  | some n => ofInteger n

/-- A limit in its context. -/
def lift (outcome : Except LimitFault Int) : Except Fault Int := outcome.mapError Fault.limit

/-- The limit that a value gives: an integer as it is, a truth value as one or zero, another number
without its fraction, a text as a numeral. -/
def ofJson (value : Json) : Except Fault Int :=
  match value with
  | .integer n => lift (ofInteger n)
  | .bool b => lift (ofInteger (if b then 1 else 0))
  | .text s => lift (ofText s)
  | .real (.infinite _) => .error .limitInfinite
  | .real x =>
    match x.truncate? with
    | some n => lift (ofInteger n)
    | none => .error (.limit (.notAnInteger value.display))
  | _ => .error (.limit (.notAnInteger value.display))

end SoapTypes.PassLimit
