import UtilityCss.Files.Glob
import UtilityCss.Files.Tree

/-!
Ignore files. Each line of one is a glob for the paths below its directory; the last line that
matches decides, and a line that begins with an exclamation mark decides against ignoring.

Three kinds of files have a say, the earlier over the later: `.ignore`, `.gitignore`, and the
exclude list of a repository. Of one kind the innermost directory decides that has a matching line.
The latter two count only inside a repository, and not from above its top.
-/
namespace UtilityCss

structure IgnoreLine where
  pattern : Pattern
  keeps : Bool
  directoriesOnly : Bool

namespace IgnoreLine

def startsWith (start : String) (line : Text) : Bool :=
  start.toList.isPrefixOf line

def endsWith (ending : String) (line : Text) : Bool :=
  ending.toList.reverse.isPrefixOf line.reverse

/-- A glob without a slash matches in every directory below. A glob that ends in two stars matches
what is inside, not the directory. -/
def completeGlob (anchored : Bool) (glob : Text) : Text :=
  let glob :=
    if anchored || glob.contains '/' || glob == "**".toList then glob else "**/".toList ++ glob
  if endsWith "/**" glob then glob ++ "/*".toList else glob

def read? (line : Text) : Option IgnoreLine := do
  if startsWith "#" line then none
  let line := if endsWith "\\ " line then line else Text.trimEnd line
  if line.isEmpty then none
  let escaped := startsWith "\\!" line || startsWith "\\#" line
  let line := if escaped then line.drop 1 else line
  let keeps := !escaped && startsWith "!" line
  let line := if keeps then line.drop 1 else line
  let anchored := !escaped && startsWith "/" line
  let line := if anchored then line.drop 1 else line
  let directoriesOnly := endsWith "/" line
  let line := if directoriesOnly then line.dropLast else line
  let line := if directoriesOnly && endsWith "\\" line then line.dropLast else line
  let pattern ← Glob.pattern? (completeGlob anchored line)
  return ⟨pattern, keeps, directoriesOnly⟩

end IgnoreLine

/-- The lines of an ignore file, last first. -/
abbrev IgnoreList := List IgnoreLine

namespace IgnoreList

/-- Lines without their ends; a carriage return belongs to the end. -/
def splitLines (octets : Octets) : List Octets :=
  let parts := splitAt 0x0A octets
  let withoutReturn (line : Octets) : Octets :=
    if line.getLast? == some 0x0D then line.dropLast else line
  parts.dropLast.map withoutReturn ++ parts.getLast?.toList.filter (!·.isEmpty)

/-- The list ends in front of a line that is not text. -/
def ofOctets (octets : Octets) : IgnoreList :=
  let texts := ((splitLines octets).map Octets.text?).takeWhile Option.isSome |>.filterMap id
  let texts := match texts with
    | first :: rest => first.dropWhile (· == '\uFEFF') :: rest
    | [] => []
  (texts.filterMap IgnoreLine.read?).reverse

/-- Whether a path below the list's directory is ignored; none where no line says. -/
def decision? (list : IgnoreList) (names : List Text) (isDirectory : Bool) : Option Bool :=
  let path := Octets.ofText (['/'].intercalate names)
  (list.find? fun line =>
    (isDirectory || !line.directoriesOnly) && line.pattern.accepts path).map (!·.keeps)

end IgnoreList

/-- What one directory says about the paths below it. -/
structure IgnoreRules where
  own : IgnoreList
  tracked : IgnoreList
  excluded : IgnoreList
  isRepository : Bool

namespace IgnoreRules

def listAt (files : Files) (place : Location) : IgnoreList :=
  match files.node? place with
  | some (.file octets) => .ofOctets octets
  | _ => []

def ofDirectory (files : Files) (dir : Location) : IgnoreRules where
  own := listAt files (dir ++ [".ignore".toList])
  tracked := listAt files (dir ++ [".gitignore".toList])
  excluded := listAt files (dir ++ [".git".toList, "info".toList, "exclude".toList])
  isRepository := (files.node? (dir ++ [".git".toList])).isSome

/-- The directories that have a say about a place, innermost first, with the names from there. -/
def above (place : Location) : List (Location × List Text) :=
  (List.range place.length).reverse.map fun n => (place.take n, place.drop n)

/-- The first decision of one kind of list. -/
def first? (rules : List (IgnoreRules × List Text)) (list : IgnoreRules → IgnoreList)
    (isDirectory : Bool) : Option Bool :=
  rules.findSome? fun rule => (list rule.1).decision? rule.2 isDirectory

/-- Directories up to the innermost top of a repository, none outside of one. -/
def upToRepository (rules : List (IgnoreRules × List Text)) : List (IgnoreRules × List Text) :=
  if rules.any (·.1.isRepository) then
    let inside := rules.takeWhile (!·.1.isRepository)
    rules.take (inside.length + 1)
  else []

def decision? (rules : List (IgnoreRules × List Text)) (isDirectory : Bool) : Option Bool :=
  first? rules own isDirectory
    <|> first? (upToRepository rules) tracked isDirectory
    <|> first? (upToRepository rules) excluded isDirectory

end IgnoreRules

/-- Rules by directory, read once for a whole tree. -/
def Files.ignoreRules (files : Files) : List (Location × IgnoreRules) :=
  let dirs := (files.nodes.flatMap fun node => (IgnoreRules.above node.1).map (·.1)).eraseDups
  dirs.map fun dir => (dir, IgnoreRules.ofDirectory files dir)

/-- Whether rules keep a walk away from a place. -/
def isIgnored (rules : List (Location × IgnoreRules)) (place : Location) (isDirectory : Bool) :
    Bool :=
  let above := (IgnoreRules.above place).filterMap fun (dir, names) =>
    (rules.lookup dir).map (·, names)
  (IgnoreRules.decision? above isDirectory).getD false

end UtilityCss
