import UtilityCss.Distribution
import UtilityCss.Files.Path
import UtilityCss.Text.Quoted

/-!
A tree of files and directories, held as the list of its nodes, with the directory that relative
paths start from. A directory is there when a node says so or when something is inside it, be it
only the directory that paths start from.

Following a path asks every name but the last to be a directory, and a slash or dot at the end asks
it of the last one too. There are no links of either kind: every place has a node of its own, and a
name leads to nothing but the place that it spells.
-/
namespace UtilityCss

/-- The names that lead to a place from the root of the tree. -/
abbrev Location := List Text

inductive Node where
  | file (octets : Octets)
  | directory
  deriving DecidableEq

structure Files where
  here : Location
  nodes : List (Location × Node)

namespace IoError

def notFound : IoError :=
  ⟨.notFound, "No such file or directory (os error 2)"⟩

def notADirectory : IoError :=
  ⟨.notADirectory, "Not a directory (os error 20)"⟩

def isADirectory : IoError :=
  ⟨.isADirectory, "Is a directory (os error 21)"⟩

/-- The error with the path it concerns. -/
def onPath (error : IoError) (path : Text) : IoError :=
  { error with message := String.ofList path ++ ": " ++ error.message }

end IoError

/-- A directory opens, but there is nothing to be read from it. -/
def Node.feed : Node → Feed
  | .file octets => .ofOctets octets
  | .directory => .broken .isADirectory

namespace Files

def node? (files : Files) (place : Location) : Option Node :=
  match files.nodes.lookup place with
  | some node => some node
  | none =>
    if place.isPrefixOf files.here || files.nodes.any (fun node => place.isPrefixOf node.1)
    then some .directory
    else none

def isDirectory (files : Files) (place : Location) : Bool :=
  files.node? place == some .directory

/-- Goes on by one name from a place that has to be a directory. -/
def enter (files : Files) (place : Location) (name : Text) : Except IoError Location :=
  match files.node? place with
  | none => .error .notFound
  | some (.file _) => .error .notADirectory
  | some .directory =>
    if name == ['.'] then .ok place
    else if name == ['.', '.'] then .ok place.dropLast
    else .ok (place ++ [name])

/-- The steps of a path. A slash at the end is a last step to the place itself. -/
def steps (path : Text) : List Text :=
  let parts := splitAt '/' path
  let dot (last : Bool) (part : Text) : Option Text :=
    if part.isEmpty then if last then some ['.'] else none else some part
  parts.dropLast.filterMap (dot false) ++ (parts.getLast?.bind (dot true)).toList

/-- The place a path leads to, where nothing need be yet. -/
def locate (files : Files) (path : Text) : Except IoError Location :=
  if path.isEmpty then .error .notFound
  else (steps path).foldlM files.enter (if Path.isAbsolute path then [] else files.here)

def find (files : Files) (path : Text) : Except IoError (Location × Node) := do
  let place ← files.locate path
  match files.node? place with
  | some node => .ok (place, node)
  | none => .error .notFound

def hasDirectory (files : Files) (path : Text) : Bool :=
  match files.find path with
  | .ok (_, .directory) => true
  | _ => false

/-- Opens a path for reading while the output goes to the given place, if to any in the tree. -/
def source (files : Files) (output : Option Location) (path : Text) : Except IoError Source := do
  let (place, node) ← files.find path
  return if output = some place then .output else .steady node.feed

def put (files : Files) (place : Location) (octets : Octets) : Files :=
  { files with nodes := (place, .file octets) :: files.nodes.filter (·.1 != place) }

/-- Makes an empty file, in place of what was there. -/
def create (files : Files) (path : Text) : Except IoError (Location × Files) := do
  let bare := (path.reverse.dropWhile (· == '/')).reverse
  let place ← files.locate (if bare.isEmpty then path else bare)
  if path.getLast? == some '/' || files.isDirectory place then .error .isADirectory
  else .ok (place, files.put place [])

/-- The octets of a file, none for anything else. -/
def read? (files : Files) (path : Text) : Option Octets :=
  match files.find path with
  | .ok (_, .file octets) => some octets
  | _ => none

def empty (here : Location) : Files :=
  ⟨here, []⟩

/-- Adds a file, or a directory where the path ends in a slash. -/
def add (files : Files) (path : Text) (octets : Octets) : Files :=
  let place := files.here ++ Path.names path
  if path.getLast? == some '/' then { files with nodes := (place, .directory) :: files.nodes }
  else files.put place octets

end Files

/-- A distribution kept as files of a directory, named by section. -/
structure StyleDirectory where
  path : Text
  /-- The file names, where they are not the sections' own with an ending. -/
  fileName : Option (Section → Text)

namespace StyleDirectory

def filePath (dir : StyleDirectory) (part : Section) : Text :=
  Path.join dir.path <| match dir.fileName with
    | some name => name part
    | none => (part.name ++ ".css").toList

def describe (dir : StyleDirectory) : String :=
  "DirDist \x7b dir: " ++ String.ofList (Text.quotedPath dir.path) ++ ", name_map: " ++
    toString dir.fileName.isSome ++ " \x7d"

def distribution (dir : StyleDirectory) (files : Files) (output : Option Location) :
    Distribution where
  openSection part :=
    (files.source output (dir.filePath part)).mapError (·.onPath (dir.filePath part))
  purgeKeys := none

end StyleDirectory

end UtilityCss
