import UtilityCss.Text.Split

/-!
Paths as they are written, with slashes between names. Empty names and single dots say nothing,
except that the first dot of a relative path and whatever ends a path may matter to its reader.
-/
namespace UtilityCss.Path

def isAbsolute (path : Text) : Bool :=
  path.head? == some '/'

/-- The names of a path; single dots are left out. -/
def names (path : Text) : List Text :=
  (splitAt '/' path).filter fun name => !name.isEmpty && name != ['.']

/-- A name taken inside a directory. -/
def join (dir name : Text) : Text :=
  if isAbsolute name || dir.isEmpty then name
  else if dir.getLast? == some '/' then dir ++ name
  else dir ++ '/' :: name

/-- The name a path ends in, unless that leads upwards or there is none. -/
def fileName? (path : Text) : Option Text :=
  match (names path).getLast? with
  | some name => if name == ['.', '.'] then none else some name
  | none => none

/-- The path without what says nothing at its end. -/
def bare (path : Text) : Text :=
  bareFrom path.reverse
where
  bareFrom : Text → Text
    | '/' :: rest => bareFrom rest
    | '.' :: '/' :: rest => bareFrom rest
    | reversed => reversed.reverse

/-- The path with an ending added to its last name, where it has one. -/
def withEnding (path ending : Text) : Option Text :=
  (fileName? path).map fun _ => bare path ++ '.' :: ending

/-- A path as it is seen from a directory that is given by its names. Relative paths are already. -/
def seenFrom (here : List Text) (path : Text) : Text :=
  ['/'].intercalate <|
    if isAbsolute path then climb here (names path) else names path
where
  climb : List Text → List Text → List Text
    | a :: here, b :: place => if a == b then climb here place
      else List.replicate (here.length + 1) ['.', '.'] ++ b :: place
    | here, place => List.replicate here.length ['.', '.'] ++ place

/-- What follows the last dot of the name, where something stands before the dot. -/
def extension? (path : Text) : Option Text := do
  let name ← fileName? path
  let after := name.reverse.takeWhile (· != '.')
  if after.length + 1 < name.length then some after.reverse else none

/-- The markup files that are scanned where no other choice is made. -/
def isMarkup (path : Text) : Bool :=
  match extension? path with
  | some e => ["html", "vugu", "jsx", "vue"].any fun known => known.toList == e
  | none => false

end UtilityCss.Path
