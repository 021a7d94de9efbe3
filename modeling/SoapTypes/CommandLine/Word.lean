import SoapTypes.CommandLine.Switch
import SoapTypes.Text.Identifier

/-!
# Words of a command line

A word is a switch, with or without a value attached to it, a value, the separator behind which all
words are values, or unknown. An unambiguous beginning of a long switch stands for it. A value is
attached behind `=`, or directly behind a short switch; what is attached to a short switch that
takes no value is read as more short switches.
-/

namespace SoapTypes

/-- A text that is attached to a switch, and whether the switch is a short one. -/
structure Attached where
  short : Bool
  text : String
  deriving DecidableEq, Repr

/-- A word of a command line. -/
inductive Word where
  | value (text : String)
  | separator
  /-- A switch with what is attached to it. -/
  | use (switch : Switch) (attached : Option Attached)
  | unknown (text : String)
  deriving DecidableEq, Repr

namespace Word

/-- A word cut at its first equals sign. -/
def cutAtEquals? (word : String) : Option (String × String) :=
  match word.toList.dropWhile fun c => c != '=' with
  | [] => none
  | _ :: behind => some (String.ofList (word.toList.takeWhile fun c => c != '='),
      String.ofList behind)

/-- The long switches that begin with what stands in front of the equals sign of a word, by their
spellings. -/
def longReadings (beginning : String) : List (String × Switch) :=
  Switch.table.filter fun entry => beginning.toList.isPrefixOf entry.1.toList

/-- A word that looks like a negative number: a dash, digits, and perhaps a point among them with at
least one digit behind it. One final line break does not count. -/
def isNegativeNumber (word : String) : Bool :=
  match Text.withoutFinalBreak word.toList with
  | '-' :: cs =>
    match cs.dropWhile Text.isDecimalDigit with
    | [] => !cs.isEmpty
    | '.' :: fraction => !fraction.isEmpty && fraction.all Text.isDecimalDigit
    | _ => false
  | _ => false

/-- The reading of a word that begins no switch: a negative number and a text with a space are
values. -/
def classifyOther (word : String) : Word :=
  if isNegativeNumber word || word.toList.contains ' ' then value word else unknown word

/-- The reading of a word with two dashes that is no switch in full: the switch that it is the
beginning of, up to its equals sign. -/
def classifyLong (word : String) : Except UsageFault Word :=
  let (beginning, attached) : String × Option Attached :=
    match cutAtEquals? word with
    | some (beginning, behind) => (beginning, some ⟨false, behind⟩)
    | none => (word, none)
  match longReadings beginning with
  | [] => .ok (classifyOther word)
  | [(_, switch)] => .ok (use switch attached)
  | readings => .error (.ambiguous word (readings.map Prod.fst))

/-- The reading of a word with one dash that is no switch in full: a short switch with characters
directly behind it. -/
def classifyShort (word : String) : Word :=
  match Switch.ofSpelling? (String.ofList (word.toList.take 2)) with
  | some switch => use switch (some ⟨true, String.ofList (word.toList.drop 2)⟩)
  | none => classifyOther word

/-- Whether a spelling is a long one: it begins with two dashes. -/
def isLong (spelling : String) : Bool := ['-', '-'].isPrefixOf spelling.toList

/-- The switch that a word writes in full, alone or in front of its equals sign. -/
def inFull? (word : String) : Option Word :=
  match Switch.ofSpelling? word with
  | some switch => some (use switch none)
  | none => do
    let (spelling, behind) ← cutAtEquals? word
    let switch ← Switch.ofSpelling? spelling
    return use switch (some ⟨!isLong spelling, behind⟩)

/-- The reading of a word in front of the separator. -/
def classify (word : String) : Except UsageFault Word :=
  match word.toList with
  | ['-', '-'] => .ok separator
  | '-' :: second :: _ =>
    match inFull? word with
    | some found => .ok found
    | none => if second = '-' then classifyLong word else .ok (classifyShort word)
  | _ => .ok (value word)

/-- The readings of the words of a command line. -/
def classifyAll : List String → Except UsageFault (List Word)
  | [] => .ok []
  | word :: words => do
    match ← classify word with
    | .separator => return .separator :: words.map .value
    | first => return first :: (← classifyAll words)

/-- The switches that one word uses: the last of them, what is attached to it, and those without
values in front of it. -/
structure Uses where
  before : List Switch
  last : Switch
  attached : Option String
  deriving DecidableEq, Repr

/-- One more switch in front of others. -/
def Uses.after (uses : Uses) (switch : Switch) : Uses :=
  { uses with before := switch :: uses.before }

/-- What a short switch without a value says together with the characters behind it: the first of
them is one more short switch, and the others are attached to that. -/
def cluster (switch : Switch) : List Char → Except UsageFault Uses
  | [] => .ok ⟨[], switch, none⟩
  | c :: cs =>
    match Switch.ofSpelling? (String.ofList ['-', c]) with
    | none => .error (.ignoredValue switch (String.ofList (c :: cs)))
    | some next =>
      if next.takesValue && !cs.isEmpty then .ok ⟨[switch], next, some (String.ofList cs)⟩
      else (cluster next cs).map fun uses => uses.after switch

/-- What a switch says together with what is attached to it. -/
def expand (switch : Switch) : Option Attached → Except UsageFault Uses
  | none => .ok ⟨[], switch, none⟩
  | some attached =>
    if switch.takesValue then .ok ⟨[], switch, some attached.text⟩
    else if attached.short && !attached.text.isEmpty then cluster switch attached.text.toList
    else .error (.ignoredValue switch attached.text)

end Word

end SoapTypes
