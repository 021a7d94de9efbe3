import SoapTypes.PassLimit
import SoapTypes.Text.Pieces

/-!
# Switches

The switches of the command line, how they are written, and what can be wrong with their use.
-/

namespace SoapTypes

/-- The switches of the command line. -/
inductive Switch where
  | help
  | description
  | schema
  | output
  | quoteProperties
  | noQuoteProperties
  | knownEnum
  | maxPasses
  | verbose
  deriving DecidableEq, Repr

namespace Switch

/-- The ways to write a switch in full. -/
def spellings : Switch → List String
  | help => ["-h", "--help"]
  | description => ["--description", "-d"]
  | schema => ["--schema", "-s"]
  | output => ["--output", "-o"]
  | quoteProperties => ["--quote-properties"]
  | noQuoteProperties => ["--no-quote-properties"]
  | knownEnum => ["--known-enum"]
  | maxPasses => ["--max-passes"]
  | verbose => ["--verbose", "-v"]

/-- All switches. -/
def all : List Switch :=
  [help, description, schema, output, quoteProperties, noQuoteProperties, knownEnum, maxPasses,
    verbose]

/-- Whether a switch takes a value. -/
def takesValue : Switch → Bool
  | description | schema | output | knownEnum | maxPasses => true
  | help | quoteProperties | noQuoteProperties | verbose => false

/-- The switches that have to be there. -/
def required : List Switch := [description, output]

/-- The name of a switch in a message. -/
def label (switch : Switch) : String := Text.joinWith "/" switch.spellings

/-- All spellings with their switches. -/
def table : List (String × Switch) :=
  all.flatMap fun switch => switch.spellings.map fun spelling => (spelling, switch)

/-- The switch with a spelling. -/
def ofSpelling? (spelling : String) : Option Switch := Entries.value? table spelling

end Switch

/-- What is wrong with a command line. -/
inductive UsageFault where
  | ambiguous (word : String) (candidates : List String)
  | expectedValue (switch : Switch)
  | ignoredValue (switch : Switch) (value : String)
  | excluded (switch other : Switch)
  | badLimit (fault : LimitFault)
  | missing (switches : List Switch)
  | unrecognized (words : List String)
  deriving DecidableEq, Repr

/-- A message about a switch. -/
def Switch.message (switch : Switch) (text : String) : String :=
  "argument " ++ switch.label ++ ": " ++ text

/-- The wording of a fault. -/
def UsageFault.message : UsageFault → String
  | ambiguous word candidates =>
    "ambiguous option: " ++ word ++ " could match " ++ Text.joinWith ", " candidates
  | expectedValue switch => switch.message "expected one argument"
  | ignoredValue switch value => switch.message ("ignored explicit argument " ++ Text.display value)
  | excluded switch other => switch.message ("not allowed with argument " ++ other.label)
  | badLimit fault => Switch.maxPasses.message fault.message
  | missing switches =>
    "the following arguments are required: " ++ Text.joinWith ", " (switches.map Switch.label)
  | unrecognized words => "unrecognized arguments: " ++ Text.joinWith " " words

end SoapTypes
