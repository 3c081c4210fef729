import UtilityCss.CommandLine.Arguments
import UtilityCss.Conduit
import UtilityCss.Convert.Remains
import UtilityCss.Files.Walk
import UtilityCss.Minify
import UtilityCss.Settings.Layers

/-!
A run of the command on a tree of files. Settings are read first, then markup is scanned, the output
is made, inputs are opened, and at last everything is converted. What the output had in it before is
lost as soon as it is made, even to an input that is the same file. A conversion that fails leaves
in the output what it has written by then.
-/
namespace UtilityCss.CommandLine

inductive Failure where
  | settings (error : SettingsError)
  | noDistribution
  | markupKeys (error : ConvertError)
  | markup (error : IoError)
  | cannotCreate (path : Text) (error : IoError)
  | cannotOpen (path : Text) (error : IoError)
  | conversion (halt : Convert.Halt)
  deriving DecidableEq, Repr

namespace Failure

/-- What is written to the error stream; what exactly is wrong with a file of settings that is no
TOML is not told. -/
def message? : Failure → Option String
  | settings error => error.message?.map ("Configuration error: " ++ ·)
  | noDistribution =>
    some "Error: no tailwind distribution configured; pass --dist <dir> or set dist.dir"
  | markupKeys error => some ("Error: " ++ error.message)
  | markup error => some ("Error: " ++ error.message)
  | cannotCreate path error =>
    some ("Error: cannot create " ++ String.ofList path ++ ": " ++ error.message)
  | cannotOpen path error =>
    some ("Error: cannot open " ++ String.ofList path ++ ": " ++ error.message)
  | conversion (.error error) =>
    some ("Error: " ++ error.message ++
      if error.isInternal then " (this is a bug in twcss)" else "")
  | conversion .endless => some "Error: a section of the distribution includes itself"

/-- Whether the output has been made by the time of the failure. -/
def isAfterOutput : Failure → Bool
  | cannotOpen .. | conversion _ => true
  | _ => false

end Failure

def versionText : Text :=
  "twcss 0.1.0\n".toList

def helpText : Text :=
  ("Usage: twcss [OPTIONS] [inputs]...\n\n" ++
    "  -o, --output <path>  Write to this file instead of standard output\n" ++
    "      --dist <dir>     Directory of base.css, components.css and utilities.css\n" ++
    "      --purge <path>   File or directory to scan for class names in use\n" ++
    "      --minify         Drop needless semicolons\n" ++
    "      --inline         Read inputs as lists of declarations\n" ++
    "  -c, --config <path>  File of settings\n" ++
    "  -v, --verbose        Log more\n" ++
    "  -h, --help           Print this text\n" ++
    "  -V, --version        Print the version\n").toList

/-- How a successful run leaves things. -/
structure Result where
  output : Octets
  files : Files

def defaultSettingsPath : Text := "twcss.toml".toList

def settingsPath (arguments : Arguments) : Text :=
  arguments.settings.getD defaultSettingsPath

/-- Where the file of settings may be. -/
def settingsPaths (arguments : Arguments) : List Text :=
  let path := settingsPath arguments
  path :: (Path.withEnding path Settings.ending).toList

def layers (arguments : Arguments) : List Layer :=
  let file : Layer := .file (settingsPath arguments) arguments.settings.isSome
  let distribution := arguments.distribution.map fun dir =>
    Layer.single "dist.dir".toList (.scalar none (.text dir))
  let minify := Layer.single "output.minify".toList (.boolean true)
  file :: distribution.toList ++ if arguments.minify then [minify] else []

/-- The settings in force, paths to purge by from the command line included. -/
def settings (files : Files) (arguments : Arguments) : Except SettingsError Settings := do
  let found ← Settings.load files (layers arguments)
  return { found with purge := { found.purge with paths := found.purge.paths ++ arguments.purge } }

def scanPath (files : Files) (purge : PurgeSettings) (usage : Usage) (path : Text) :
    Except IoError Usage :=
  (·.1) <$> if files.hasDirectory path then files.scanWalk path purge.wantsFile usage
    else files.scanFile path usage

/-- The keys in use, where rules are purged at all. -/
def usage? (files : Files) (dir : StyleDirectory) (purge : PurgeSettings) :
    Except Failure (Option Usage) :=
  if purge.isActive then do
    let usage ← (Usage.ofDistribution (dir.distribution files none)).mapError .markupKeys
    some <$> (purge.paths.foldlM (scanPath files purge) usage).mapError .markup
  else .ok none

/-- The paths to convert; without any it is standard input. -/
def inputPaths (arguments : Arguments) : List Text :=
  if arguments.inputs.isEmpty then [['-']] else arguments.inputs

/-- Opens inputs in order. Only the first one that is standard input gets what is in it. -/
def openInputs (files : Files) (output : Option Location) (isInline : Bool) :
    Octets → List Text → Except Failure (List Convert.Input)
  | _, [] => .ok []
  | stdin, ['-'] :: rest => do
    let others ← openInputs files output isInline [] rest
    return ⟨"<stdin>", .steady (.ofOctets stdin), isInline⟩ :: others
  | stdin, path :: rest => do
    let source ← (files.source output path).mapError (.cannotOpen path)
    let others ← openInputs files output isInline stdin rest
    return ⟨String.ofList path, source, isInline⟩ :: others

/-- Makes the output. While it is written to as the conversion goes on, its place counts. -/
def create (files : Files) (path : Option Text) : Except Failure (Option Location × Files) :=
  match path with
  | some path => do
    let (place, files) ← (files.create path).mapError (.cannotCreate path)
    return (some place, files)
  | none => .ok (none, files)

/-- Converts to what goes into the output. Nothing goes there before the end when minifying. -/
def convert (files : Files) (place : Option Location) (arguments : Arguments)
    (settings : Settings) (dir : StyleDirectory) (usage : Option Usage) (stdin : Octets) :
    Except Failure Octets := do
  let live := if settings.minify then none else place
  let inputs ← openInputs files live arguments.inline stdin (inputPaths arguments)
  let settings' : Convert.Settings := ⟨dir.distribution files live, usage.map (·.snapshot.purges)⟩
  if settings.minify then
    (Convert.runThrough (fun octets => .finished (Minify.minify octets)) settings' inputs).mapError
      .conversion
  else
    let output ← (Convert.run settings' inputs none).mapError .conversion
    return .ofText output.text

def run (files : Files) (arguments : Arguments) (stdin : Octets) : Except Failure Result := do
  let settings ← (settings files arguments).mapError .settings
  let some path := settings.distribution | .error .noDistribution
  let dir : StyleDirectory := ⟨path, none⟩
  let usage ← usage? files dir settings.purge
  let (place, files) ← create files arguments.output
  let octets ← convert files place arguments settings dir usage stdin
  return match place with
    | some place => ⟨[], files.put place octets⟩
    | none => ⟨octets, files⟩

/-- What a run that fails leaves in the output it has made: all that was written up to the error. Of
what is to be minified the transform gets to see as much as reached it. -/
def remains (files : Files) (arguments : Arguments) (stdin : Octets) : Octets :=
  let left : Except Failure Octets := do
    let settings ← (settings files arguments).mapError .settings
    let some path := settings.distribution | .error .noDistribution
    let dir : StyleDirectory := ⟨path, none⟩
    let usage ← usage? files dir settings.purge
    let (place, files) ← create files arguments.output
    let live := if settings.minify then none else place
    let inputs ← openInputs files live arguments.inline stdin (inputPaths arguments)
    let settings' : Convert.Settings := ⟨dir.distribution files live, usage.map (·.snapshot.purges)⟩
    let o := Convert.remains settings' inputs
    if settings.minify then
      let (last, handed) := Output.replay o.pieces
      let writes := (handed ++ last.drains).map (·.octets)
      return Minify.minify (Conduit.Writer.handsOn ⟨true, []⟩ writes)
    else return .ofText o.text
  left.toOption.getD []

end UtilityCss.CommandLine
