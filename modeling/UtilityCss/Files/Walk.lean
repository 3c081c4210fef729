import UtilityCss.Files.Ignore
import UtilityCss.Purge.Usage

/-!
Scanning markup files. A walk through a directory takes every file whose path a matcher accepts,
hidden ones too, and stays away from what ignore files name. The place it starts from is never
ignored, and a walk may start from a file.
-/
namespace UtilityCss.Files

/-- A file that a walk found. -/
structure Found where
  path : Text
  octets : Octets

/-- Whether a walk from a directory gets to a place below it. -/
def reaches (files : Files) (rules : List (Location × IgnoreRules)) (root place : Location) :
    Bool :=
  root.length < place.length && root.isPrefixOf place &&
    ((List.range place.length).filter (root.length ≤ ·)).all fun n =>
      !isIgnored rules (place.take (n + 1)) (files.isDirectory (place.take (n + 1)))

def below (files : Files) (path : Text) (root : Location) : List Found :=
  let rules := files.ignoreRules
  files.nodes.filterMap fun (place, node) =>
    match node with
    | .file octets =>
      if files.reaches rules root place then
        some ⟨Path.join path (['/'].intercalate (place.drop root.length)), octets⟩
      else none
    | .directory => none

/-- The files of a walk. A single dash is no place to start from. -/
def walk (files : Files) (path : Text) : Except IoError (List Found) :=
  if path == ['-'] then .ok []
  else match files.find path with
    | .ok (root, .directory) => .ok (files.below path root)
    | .ok (_, .file octets) => .ok [⟨path, octets⟩]
    | .error error =>
      .error { error with
        message := String.ofList path ++ ": IO error for operation on " ++ String.ofList path ++
          ": " ++ error.message }

/-- Scans a file, and tells how many keys it added. -/
def scanFile (files : Files) (path : Text) (usage : Usage) : Except IoError (Usage × Nat) := do
  let (_, node) ← (files.find path).mapError (·.onPath path)
  let (usage, count) := usage.scan node.feed
  return (usage, ← count)

/-- Scans what a walk finds and tells how many files that were. -/
def scanWalk (files : Files) (path : Text) (isWanted : Text → Bool) (usage : Usage) :
    Except IoError (Usage × Nat) := do
  let found := (← files.walk path).filter fun file => isWanted file.path
  return (found.foldl (fun usage file => (usage.scan (.ofOctets file.octets)).1) usage,
    found.length)

end UtilityCss.Files
