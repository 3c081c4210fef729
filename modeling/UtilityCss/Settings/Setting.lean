import UtilityCss.Text.Lowercase
import UtilityCss.Toml.Value

/-!
Settings before they have a meaning: scalars, lists and tables, each with the file it was read from.
Tables are merged key by key, and keys do not differ by case. Anything that stands in the way of an
entry gives way to a table or a list, which comes from no file.
-/
namespace UtilityCss

inductive Scalar where
  | nothing
  | boolean (b : Bool)
  | integer (n : Int)
  | real (x : Binary64)
  | text (content : Text)
  deriving DecidableEq

/-- A path relative to the working directory. -/
abbrev Origin := Option Text

inductive Setting where
  | scalar (origin : Origin) (value : Scalar)
  | list (origin : Origin) (items : List Setting)
  | table (origin : Origin) (entries : List (Text × Setting))

namespace Setting

def nothing : Setting := .scalar none .nothing

def emptyTable : Setting := .table none []

def text (content : String) : Setting := .scalar none (.text content.toList)

def boolean (b : Bool) : Setting := .scalar none (.boolean b)

def texts (contents : List String) : Setting := .list none (contents.map text)

def origin : Setting → Origin
  | scalar origin _ | list origin _ | table origin _ => origin

/-- The entries of a table with one of them changed, or made anew in its place at the end. -/
def changeEntry (key : Text) (missing : Setting) (change : Setting → Setting) :
    List (Text × Setting) → List (Text × Setting)
  | [] => [(key, change missing)]
  | entry :: rest =>
    if entry.1 == key then (key, change entry.2) :: rest
    else entry :: changeEntry key missing change rest

/-- Changes an entry of what becomes a table by that. -/
def atKey (target : Setting) (key : Text) (missing : Setting) (change : Setting → Setting) :
    Setting :=
  match target with
  | .table origin entries => .table origin (changeEntry key.lower missing change entries)
  | _ => .table none (changeEntry key.lower missing change [])

mutual

/-- Puts an entry into a table. The entries of a table are put into the table already there. -/
def put (target : Setting) (key : Text) (incoming : Setting) : Setting :=
  match incoming with
  | .table _ entries => target.atKey key emptyTable fun inner => putAll inner entries
  | other => target.atKey key other fun _ => other

def putAll (target : Setting) (incoming : List (Text × Setting)) : Setting :=
  match incoming with
  | [] => target
  | (key, setting) :: rest => putAll (put target key setting) rest

end

/-- The items of a list and the place of an index in it. An index below zero counts from the end.
The list is extended at either end until it has the place. -/
def reach (index : Int) (items : List Setting) : List Setting × Nat :=
  match index with
  | .ofNat n => (items ++ List.replicate (n + 1 - items.length) nothing, n)
  | .negSucc n =>
    (List.replicate (n + 1 - items.length) nothing ++ items, items.length - (n + 1))

/-- Changes an item of what becomes a list by that. -/
def atIndex (target : Setting) (index : Int) (change : Setting → Setting) : Setting :=
  let (origin, items) := match target with
    | .list origin items => (origin, items)
    | _ => (none, [])
  let (items, place) := reach index items
  .list origin (items.modify place change)

mutual

def ofToml (origin : Origin) : Toml.Value → Setting
  | .text content | .moment content => .scalar origin (.text content)
  | .integer n => .scalar origin (.integer n)
  | .real x => .scalar origin (.real x)
  | .boolean b => .scalar origin (.boolean b)
  | .list items => .list origin (ofItems origin items)
  | .table _ entries => .table origin (ofTable origin entries)
  | .elements tables => .list origin (ofElements origin tables).reverse

def ofItems (origin : Origin) : List Toml.Value → List Setting
  | [] => []
  | value :: rest => ofToml origin value :: ofItems origin rest

def ofTable (origin : Origin) : List (Text × Toml.Value) → List (Text × Setting)
  | [] => []
  | (key, value) :: rest => (key, ofToml origin value) :: ofTable origin rest

def ofElements (origin : Origin) : List (List (Text × Toml.Value)) → List Setting
  | [] => []
  | entries :: rest => .table origin (ofTable origin entries) :: ofElements origin rest

end

end Setting

end UtilityCss
