import SoapTypes.Catalog.Merge
import SoapTypes.Catalog.Output
import SoapTypes.CommandLine.Arguments
import SoapTypes.Files.Document

/-!
# The program

A run reads a command line and an environment, builds one catalog from each description, merges
them, and writes the files of the result. `Program.run` is the whole run as a value: how it ends,
what it prints, and what it writes, given what paths lead to and the working directory. Nothing is
written before all catalogs are built.
-/

namespace SoapTypes

/-- What a run works with. A description, the output directory or the limit on the passes can be
nothing; a run fails when it needs one that is. -/
structure Settings where
  descriptions : List Given
  schema : Option String
  outputDirectory : Given
  quoting : Quoting
  known : KnownEnums
  maxPasses : Option Int
  verbose : Bool

namespace Settings

/-- The variables of the environment. -/
abbrev Environment := Entries String

/-- The variable that replaces the output directory. -/
def outputVariable : String := "WSDL2TS_OUTPUT_DIR"

/-- The variable that replaces the schema. -/
def schemaVariable : String := "WSDL2TS_SCHEMA"

/-- The variable that replaces the limit on the number of passes. -/
def limitVariable : String := "WSDL2TS_MAX_PASSES"

/-- The variable that asks for details. -/
def verboseVariable : String := "WSDL2TS_VERBOSE"

/-- The words that mean yes, in lower case. -/
def affirmations : List String := ["1", "true", "yes"]

/-- The limit on the passes: the variable comes before the argument. -/
def limit (arguments : Arguments) (environment : Environment) : Except LimitFault (Option Int) :=
  match environment.value? limitVariable with
  | some text => (PassLimit.ofText text).map some
  | none => .ok arguments.maxPasses

/-- The settings of a run, given the known enumerations and the limit: variables come before
arguments. -/
def ofArguments (arguments : Arguments) (environment : Environment) (known : KnownEnums)
    (maxPasses : Option Int) : Settings where
  descriptions := arguments.descriptions
  schema := (environment.value? schemaVariable).or arguments.schema
  outputDirectory := (environment.value? outputVariable).or (arguments.output.getD none)
  quoting := arguments.quoting
  known := known
  maxPasses := maxPasses
  verbose := arguments.verbose ||
    affirmations.contains ((environment.value? verboseVariable).getD "").toLower

/-- The options with a limit on the passes. -/
def options (settings : Settings) (maxPasses : Int) : Options :=
  ⟨settings.quoting, settings.known, maxPasses⟩

end Settings

/-- A file to write. -/
structure Write where
  path : String
  text : String
  deriving DecidableEq, Repr

/-- How a run ends. -/
inductive Ending where
  /-- With a status, and with a last line for the error stream. -/
  | exit (status : UInt32) (complaint : String)
  /-- By a fault that is nobody's to report. -/
  | crash (fault : Fault)
  deriving DecidableEq, Repr

/-- What a run does: how it ends, the lines that it prints, and the files that it writes. -/
structure Outcome where
  ending : Ending
  printed : List String := []
  writes : List Write := []
  deriving DecidableEq, Repr

namespace Program

/-- The name of the program in its messages. -/
def name : String := "wsdl2ts.py"

/-- How the program is used. -/
def usage : List String :=
  ["usage: " ++ name ++ " --description FILE [--description FILE ...] --output DIRECTORY",
    "       [--schema FILE] [--quote-properties | --no-quote-properties] [--known-enum NAME ...]",
    "       [--max-passes N] [--verbose]"]

/-- The first endpoint of a description with its service. -/
def firstEndpoint? (description : Description) : Option (String × String) :=
  description.findSome? fun service =>
    service.2.head?.map fun endpoint => (service.1, endpoint.1)

/-- The catalog of a description and a schema. Without a limit on the passes the work ends at the
first endpoint. -/
def generate (settings : Settings) (description : Description) (schemas : Schemas) :
    Traced Fault Catalog :=
  match settings.maxPasses, firstEndpoint? description with
  | some limit, _ => Catalog.generate (settings.options limit) description schemas
  | none, none => Catalog.generate (settings.options 0) description schemas
  | none, some (service, endpoint) => do
    let _ ← Traced.ofExcept schemas.enumNames
    Traced.notice (Catalog.endpointNotice service endpoint)
    Traced.fail .nothingGiven

/-- The catalog of a description at a path. -/
def loadAndGenerate (files : Files) (settings : Settings) (schema : Option String) :
    Given → Traced Fault Catalog
  | none => Traced.fail .nothingGiven
  | some path => do
    let description ← Traced.ofExcept (Description.load files path)
    let schemas ← Traced.ofExcept (Schemas.load files schema)
    generate settings description schemas

/-- The catalogs of some descriptions. The schema belongs to the first of them. -/
def catalogs (files : Files) (settings : Settings) :
    (schema : Option String) → List Given → Traced Fault (List Catalog)
  | _, [] => return []
  | schema, path :: paths => do
    let catalog ← loadAndGenerate files settings schema path
    return catalog :: (← catalogs files settings none paths)

/-- The catalog of all descriptions together. -/
def catalog (files : Files) (settings : Settings) : Traced Fault Catalog := do
  match ← catalogs files settings settings.schema settings.descriptions with
  | [] => return Catalog.empty
  | first :: others => return first.mergeAll others

/-- Where a file goes. -/
def outputPath (directory file : String) : String :=
  Path.joinAll directory (Text.allPieces '/' file) ++ ".ts"

/-- How far the writing of some files gets: those that are written, and then the disk with all of them
or the fault at the first one that cannot be. -/
structure Writing where
  writes : List Write
  outcome : Except Fault Disk

/-- Write some files below a directory, one after the other. -/
def writeBelow (disk : Disk) (directory : String) : List OutputFile → Writing
  | [] => ⟨[], .ok disk⟩
  | output :: outputs =>
    let path := outputPath directory output.file
    match disk.write path output.text with
    | .error obstacle => ⟨[], .error (.blocked path obstacle)⟩
    | .ok disk =>
      let others := writeBelow disk directory outputs
      ⟨⟨path, output.text⟩ :: others.writes, others.outcome⟩

/-- Write some files. Only a run without files can do without an output directory. -/
def writeAll (disk : Disk) (directory : Given) (outputs : List OutputFile) : Writing :=
  match directory, outputs with
  | some directory, outputs => writeBelow disk directory outputs
  | none, [] => ⟨[], .ok disk⟩
  | none, _ :: _ => ⟨[], .error .nothingGiven⟩

/-- How a directory is written in a line; nothing is written as an empty list. -/
def directoryText (directory : Given) : String := directory.getD "[]"

/-- The line about a written file. -/
def writtenLine (write : Write) : String := (Notice.debug ("Wrote " ++ write.path)).line

/-- The line about a warning at the end of a run. -/
def warningLine (warning : String) : String := "Warning: " ++ warning

/-- The last line of a run that went well. -/
def summaryLine (count : Nat) (directory : Given) : String :=
  "Generated " ++ toString count ++ " file(s) in " ++ directoryText directory ++ "."

/-- The line about what made a run fail. -/
def errorLine (message : String) : String := "Error: " ++ message

/-- Write a catalog to a disk, after some lines were printed. -/
def finish (disk : Disk) (settings : Settings) (printed : List String) (catalog : Catalog) :
    Outcome :=
  let writing := writeAll disk settings.outputDirectory catalog.outputs
  let printed := printed ++ if settings.verbose then writing.writes.map writtenLine else []
  match writing.outcome with
  | .error fault => ⟨.crash fault, printed, writing.writes⟩
  | .ok _ =>
    ⟨.exit 0 "", printed ++ catalog.warnings.map warningLine ++
      [summaryLine writing.writes.length settings.outputDirectory], writing.writes⟩

/-- A run with settled settings in a working directory. -/
def runSettings (files : Files) (here : Spot) (settings : Settings) : Outcome :=
  let work := catalog files settings
  let printed := if settings.verbose then work.notices.map Notice.line else []
  match work.outcome with
  | .ok catalog => finish (Disk.ofFiles files here) settings printed catalog
  | .error (.load fault) => ⟨.exit 1 "", printed ++ [errorLine fault.message], []⟩
  | .error fault => ⟨.crash fault, printed, []⟩

/-- The settings of a run, or the outcome if there are none. -/
def settings (words : List String) (environment : Settings.Environment) :
    Except Outcome Settings :=
  match Arguments.parse words with
  | .error .help => .error ⟨.exit 0 "", usage, []⟩
  | .error (.usage fault) => .error ⟨.exit 2 (name ++ ": error: " ++ fault.message), [], []⟩
  | .ok arguments =>
    match Settings.limit arguments environment with
    | .error fault =>
      .error ⟨.exit 1 "", [errorLine (Settings.limitVariable ++ ": " ++ fault.message)], []⟩
    | .ok limit =>
      match arguments.knownEnums.mapM id with
      | none => .error ⟨.crash .nothingGiven, [], []⟩
      | some known => .ok (Settings.ofArguments arguments environment known limit)

/-- A whole run in a working directory. -/
def run (words : List String) (environment : Settings.Environment) (files : Files) (here : Spot) :
    Outcome :=
  match settings words environment with
  | .error outcome => outcome
  | .ok settings => runSettings files here settings

/-- The paths of the inputs that a run may look at. -/
def inputs (words : List String) (environment : Settings.Environment) : List String :=
  match settings words environment with
  | .error _ => []
  | .ok settings => settings.descriptions.filterMap id ++ settings.schema.toList

/-- The spots that a run may look at before it writes its files. -/
def outputSpots (words : List String) (environment : Settings.Environment) (files : Files)
    (here : Spot) : List Spot :=
  match settings words environment with
  | .error _ => []
  | .ok settings =>
    match settings.outputDirectory, (catalog files settings).outcome with
    | some directory, .ok catalog => catalog.outputs.flatMap fun output =>
        let path := outputPath directory output.file
        Path.directorySpots here path ++ [Path.spot here path]
    | _, _ => []

end Program

end SoapTypes
