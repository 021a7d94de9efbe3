import SoapTypes.CommandLine.Word
import SoapTypes.Shape.Basic

/-!
# Command line arguments

`Arguments.parse` reads a command line or says what is wrong with it: first the words are told
apart, then the switches take effect in order, then missing ones are reported, and last the words
that nobody took.

A switch is given with a value, or with nothing: two dashes attached to it count as nothing.
-/

namespace SoapTypes

/-- Why no arguments come out of a command line. -/
inductive Halt where
  /-- Help was asked for. -/
  | help
  | usage (fault : UsageFault)
  deriving DecidableEq, Repr

/-- The value that a switch is given with, or nothing. -/
abbrev Given := Option String

/-- What a command line says. -/
structure Arguments where
  descriptions : List Given := []
  schema : Given := none
  output : Option Given := none
  quoting : Quoting := .asNeeded
  knownEnums : List Given := []
  maxPasses : Option Int := some 32
  verbose : Bool := false
  deriving Repr, Inhabited

namespace Arguments

/-- The effect of a switch without a value. -/
def applySwitch (arguments : Arguments) : Switch → Except Halt Arguments
  | .help => .error .help
  | .quoteProperties =>
    if arguments.quoting = .never then
      .error (.usage (.excluded .quoteProperties .noQuoteProperties))
    else .ok { arguments with quoting := .always }
  | .noQuoteProperties =>
    if arguments.quoting = .always then
      .error (.usage (.excluded .noQuoteProperties .quoteProperties))
    else .ok { arguments with quoting := .never }
  | .verbose => .ok { arguments with verbose := true }
  | _ => .ok arguments

/-- The limit that a value gives; nothing gives none. -/
def limitOf : Given → Except LimitFault (Option Int)
  | none => .ok none
  | some text => (PassLimit.ofText text).map some

/-- The effect of a switch with its value. -/
def applyValue (arguments : Arguments) (switch : Switch) (value : Given) :
    Except Halt Arguments :=
  match switch with
  | .description => .ok { arguments with descriptions := arguments.descriptions ++ [value] }
  | .schema => .ok { arguments with schema := value }
  | .output => .ok { arguments with output := some value }
  | .knownEnum => .ok { arguments with knownEnums := arguments.knownEnums ++ [value] }
  | .maxPasses =>
    match limitOf value with
    | .ok limit => .ok { arguments with maxPasses := limit }
    | .error fault => .error (.usage (.badLimit fault))
  | _ => .ok arguments

/-- The value that an attached text is. -/
def attachedValue (text : String) : Given := if text = "--" then none else some text

/-- The effect of the switches that one word uses, the last one with a value. -/
def applyUses (arguments : Arguments) (uses : Word.Uses) (value : Given) :
    Except Halt Arguments := do
  (← uses.before.foldlM applySwitch arguments).applyValue uses.last value

/-- Let the words of a command line take effect in order. The words that nobody takes come out
beside the arguments. -/
def applyWords (arguments : Arguments) : List Word → Except Halt (Arguments × List String)
  | [] => .ok (arguments, [])
  | .value text :: words => do
    let (arguments, left) ← applyWords arguments words
    return (arguments, text :: left)
  | .unknown text :: words => do
    let (arguments, left) ← applyWords arguments words
    return (arguments, text :: left)
  | .separator :: words => do
    let (arguments, left) ← applyWords arguments words
    return (arguments, "--" :: left)
  | .use switch attached :: words =>
    match Word.expand switch attached with
    | .error fault => .error (.usage fault)
    | .ok uses =>
      match uses.last.takesValue, uses.attached, words with
      | false, _, words => do
        applyWords (← (uses.before ++ [uses.last]).foldlM applySwitch arguments) words
      | true, some text, words => do
        applyWords (← arguments.applyUses uses (attachedValue text)) words
      | true, none, .value text :: words => do
        applyWords (← arguments.applyUses uses (some text)) words
      | true, none, _ => .error (.usage (.expectedValue uses.last))

/-- Whether a switch that has to be there is. -/
def isGiven (arguments : Arguments) : Switch → Bool
  | .description => !arguments.descriptions.isEmpty
  | .output => arguments.output.isSome
  | _ => true

/-- Read a command line. -/
def parse (words : List String) : Except Halt Arguments := do
  let readings ← (Word.classifyAll words).mapError Halt.usage
  let (arguments, left) ← applyWords {} readings
  let missing := Switch.required.filter fun switch => !arguments.isGiven switch
  if !missing.isEmpty then throw (.usage (.missing missing))
  if !left.isEmpty then throw (.usage (.unrecognized left))
  return arguments

end Arguments

end SoapTypes
