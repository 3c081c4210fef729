import UtilityCss.CommandLine

/-!
The command. It takes over what a run may look at from the disk, runs, and writes what comes out.
-/
namespace UtilityCss.Main

def pathOf (place : Location) : String :=
  "/" ++ "/".intercalate (place.map String.ofList)

def octetsOf (bytes : ByteArray) : Octets :=
  bytes.toList

def bytesOf (octets : Octets) : ByteArray :=
  ⟨octets.toArray⟩

def node? (place : Location) : IO (Option Node) := do
  let path := (← IO.currentDir) / pathOf place
  if ← path.isDir then return some .directory
  else if ← path.pathExists then
    try return some (.file (octetsOf (← IO.FS.readBinFile path)))
    catch _ => return none
  else return none

def takePlace (files : Files) (place : Location) : IO Files := do
  match ← node? place with
  | some node => return { files with nodes := (place, node) :: files.nodes.filter (·.1 != place) }
  | none => return files

/-- Takes over what is at a path, and the directories on the way. -/
def takePath (files : Files) (path : Text) : IO Files := do
  let start : Location := if Path.isAbsolute path then [] else files.here
  let mut place := start
  let mut files := files
  for step in Files.steps path do
    place := if step == ['.', '.'] then place.dropLast
      else if step == ['.'] then place
      else place ++ [step]
    files ← takePlace files place
  return files

partial def takeBelow (files : Files) (place : Location) : IO Files := do
  let path := (← IO.currentDir) / pathOf place
  if ← path.isDir then
    let mut files := files
    for entry in ← path.readDir do
      let inner := place ++ [entry.fileName.toList]
      files ← takeBelow (← takePlace files inner) inner
    return files
  else return files

/-- Takes over a tree to scan, with the ignore files above it. -/
def takeTree (files : Files) (path : Text) : IO Files := do
  let mut files ← takePath files path
  match files.find path with
  | .ok (root, .directory) =>
    for (dir, _) in IgnoreRules.above root do
      for name in [[".ignore"], [".gitignore"], [".git"], [".git", "info", "exclude"]] do
        files ← takePlace files (dir ++ name.map String.toList)
    takeBelow files root
  | _ => return files

def takeAll (files : Files) (paths : List Text) : IO Files :=
  paths.foldlM takePath files

/-- Takes over what matters to a run with the given settings. -/
def takeFor (files : Files) (arguments : Arguments) (settings : Settings) : IO Files := do
  let styles := match settings.distribution with
    | some path => Section.all.map (StyleDirectory.filePath ⟨path, none⟩)
    | none => []
  let files ← takeAll files (styles ++ arguments.inputs ++ arguments.output.toList)
  settings.purge.paths.foldlM takeTree files

partial def readAll (stream : IO.FS.Stream) (found : ByteArray) : IO ByteArray := do
  let more ← stream.read 65536
  if more.isEmpty then return found else readAll stream (found ++ more)

def readInput (arguments : Arguments) : IO Octets := do
  if (CommandLine.inputPaths arguments).contains ['-'] then
    return octetsOf (← readAll (← IO.getStdin) .empty)
  else return []

def writeOutput (arguments : Arguments) (octets : Octets) : IO Unit :=
  match arguments.output with
  | some path => IO.FS.writeBinFile (String.ofList path) (bytesOf octets)
  | none => do
    let stream ← IO.getStdout
    stream.write (bytesOf octets)
    stream.flush

/-- Ends a run that failed, with what it leaves in its output. -/
def fail (arguments : Arguments) (failure : CommandLine.Failure) (remains : Octets) :
    IO UInt32 := do
  if failure.isAfterOutput then writeOutput arguments remains
  IO.eprintln (failure.message?.getD "Configuration error: not a TOML document")
  return 1

def runCommand (arguments : Arguments) : IO UInt32 := do
  let here := Path.names (← IO.currentDir).toString.toList
  let files ← takeAll (.empty here) (CommandLine.settingsPaths arguments)
  match CommandLine.settings files arguments with
  | .error error => fail arguments (.settings error) []
  | .ok settings =>
    let files ← takeFor files arguments settings
    let stdin ← readInput arguments
    match CommandLine.run files arguments stdin with
    | .error failure => fail arguments failure (CommandLine.remains files arguments stdin)
    | .ok result =>
      match arguments.output with
      | some path => writeOutput arguments ((result.files.read? path).getD [])
      | none => writeOutput arguments result.output
      return 0

def start (texts : List String) : IO UInt32 := do
  match Arguments.parse (texts.map String.toList) with
  | .ok arguments => runCommand arguments
  | .error .version =>
    IO.print (String.ofList CommandLine.versionText)
    return 0
  | .error .help =>
    IO.print (String.ofList CommandLine.helpText)
    return 0
  | .error .misuse =>
    IO.eprint (String.ofList CommandLine.helpText)
    return 2

end UtilityCss.Main

def main (texts : List String) : IO UInt32 :=
  UtilityCss.Main.start texts
