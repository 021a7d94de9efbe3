import SoapTypes.Program

/-!
# The command line program

Reads the files that a run may look at, lets `Program.run` decide everything, and carries out what
it says. The inputs are read first, because they say where the run may write.
-/

namespace SoapTypes.Program

/-- The codes of the fault when a path leads to a directory, and not through a file. -/
def directoryCodes : List UInt32 := [21, 0 - 21]

/-- Look at a path on the disk. -/
def lookAt (path : String) : IO Lookup := do
  try
    return .file (← IO.FS.readBinFile path)
  catch
    | .noFileOrDirectory .. => return .missing
    | .inappropriateType _ code _ =>
      return if directoryCodes.contains code then .directory else .missing
    | fault => throw fault

/-- Look at several paths on the disk. All others are taken to be missing. -/
def lookAtAll (paths : List String) : IO Files := do
  let found ← paths.mapM fun path => do return (path, ← lookAt path)
  return fun path => (Entries.value? found path).getD .missing

/-- The spot of the working directory. -/
def readWorkingDirectory : IO Spot := do
  return Path.spot [] (← IO.currentDir).toString

/-- The variables of the environment that a run looks at. -/
def readEnvironment : IO Settings.Environment := do
  let names := [Settings.outputVariable, Settings.schemaVariable, Settings.limitVariable,
    Settings.verboseVariable]
  let found ← names.mapM fun name => do return (name, ← IO.getEnv name)
  return found.filterMap fun (name, value) => value.map fun value => (name, value)

/-- Carry out a run: write its files, print its lines, and give its status. -/
def perform (outcome : Outcome) : IO UInt32 := do
  for write in outcome.writes do
    IO.FS.createDirAll (Path.parent write.path)
    IO.FS.writeFile write.path write.text
  for line in outcome.printed do
    IO.println line
  match outcome.ending with
  | .exit status complaint =>
    if !complaint.isEmpty then IO.eprintln complaint
    return status
  | .crash fault =>
    IO.eprintln fault.message
    return 1

end SoapTypes.Program

/-- The program. -/
def main (words : List String) : IO UInt32 := do
  let environment ← SoapTypes.Program.readEnvironment
  let here ← SoapTypes.Program.readWorkingDirectory
  let inputs := SoapTypes.Program.inputs words environment
  let found ← SoapTypes.Program.lookAtAll inputs
  let spots := SoapTypes.Program.outputSpots words environment found here
  let files ← SoapTypes.Program.lookAtAll (inputs ++ spots.map SoapTypes.Path.ofSpot)
  SoapTypes.Program.perform (SoapTypes.Program.run words environment files here)
