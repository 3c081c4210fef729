import UtilityCss.Files.Tree
import UtilityCss.Settings.Decode
import UtilityCss.Settings.KeyPath
import UtilityCss.Toml.Document

/-!
Settings in layers: the defaults, then files in order, then single settings. A later layer wins key
by key. A path to a file may leave out the ending, and a file that need not be there is passed over
when it cannot be read, but not when it is no TOML.
-/
namespace UtilityCss

inductive Layer where
  | file (path : Text) (isRequired : Bool)
  | single (key : Text) (value : Setting)

namespace Settings

def defaults : Setting :=
  let table (entries : List (String × Setting)) : Setting :=
    .table none (entries.map fun (key, setting) => (key.toList, setting))
  table [
    ("dist", table []),
    ("purge", table [
      ("enabled", .boolean true),
      ("paths", .texts []),
      ("extensions", .texts ["html", "vugu", "jsx", "vue"])]),
    ("output", table [("minify", .boolean false)]),
    ("log", table [("level", .text "warn")])]

/-- The ending that a path may leave out. -/
def ending : Text := "toml".toList

/-- The file that a path names, with the path that names it in full. -/
def findFile? (files : Files) (path : Text) : Option (Text × Octets) :=
  match files.read? path, Path.withEnding path ending with
  | some octets, _ => some (path, octets)
  | none, some longer => (files.read? longer).map fun octets => (longer, octets)
  | none, none => none

def readFile (files : Files) (path : Text) : Except SettingsError (Text × Text) :=
  match findFile? files path with
  | none => .error (.missingFile path)
  | some (full, octets) =>
    match octets.text? with
    | none => .error (.unreadable .notUtf8)
    | some content => .ok (full, content)

/-- The entries of a file, each marked with where it is from. -/
def entriesOf (files : Files) (path : Text) (isRequired : Bool) :
    Except SettingsError (List (Text × Setting)) :=
  match readFile files path with
  | .error error => if isRequired then .error error else .ok []
  | .ok (full, content) =>
    match Toml.document? content with
    | some table => .ok (Setting.ofTable (some (Path.seenFrom files.here full)) table)
    | none => .error .badFile

def setEntries (target : Setting) (entries : List (Text × Setting)) : Setting :=
  entries.foldl (fun target (key, setting) => target.setEntry key setting) target

/-- Single settings by path, the last one for each. Their paths are looked at before any file. -/
def singles (layers : List Layer) : Except SettingsError (List (KeyPath × Setting)) :=
  layers.foldlM (fun found layer =>
    match layer with
    | .file .. => .ok found
    | .single key value =>
      match KeyPath.ofText? key with
      | some path => .ok (found.filter (·.1 != path) ++ [(path, value)])
      | none => .error .badKey) []

def gather (files : Files) (layers : List Layer) : Except SettingsError Setting := do
  let singles ← singles layers
  let base ← layers.foldlM (fun target layer =>
    match layer with
    | .file path isRequired => do return setEntries target (← entriesOf files path isRequired)
    | .single .. => .ok target) defaults
  return singles.foldl (fun target (path, value) => Setting.setAt value path target) base

def load (files : Files) (layers : List Layer) : Except SettingsError Settings := do
  ofSetting (← gather files layers)

end Settings

end UtilityCss
