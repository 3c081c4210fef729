import UtilityCss.Decimal.Binary64

/-!
TOML documents as values. How a table came to be decides what may still be added to it: a table that
only stands on the way to another one can be opened later, once, and a table written in one piece is
closed for good.
-/
namespace UtilityCss.Toml

inductive TableForm where
  /-- Opened by a header of its own. -/
  | headed
  /-- Named on the way in a header. -/
  | implied
  /-- Named on the way in a dotted key. -/
  | dotted
  /-- Written between braces. -/
  | inline
  deriving DecidableEq, Repr

/-- Dates and times are kept as texts. The elements of an array of tables are newest first. -/
inductive Value where
  | text (content : Text)
  | integer (n : Int)
  | real (x : Binary64)
  | boolean (b : Bool)
  | moment (content : Text)
  | list (items : List Value)
  | table (form : TableForm) (entries : List (Text × Value))
  | elements (tables : List (List (Text × Value)))

abbrev Table := List (Text × Value)

namespace Table

/-- Puts a value in the place of the one under a key. -/
def replace (table : Table) (key : Text) (value : Value) : Table :=
  table.map fun entry => if entry.1 == key then (key, value) else entry

/-- Goes to a table along a path and makes the tables that are missing on the way. Nothing leads
into a closed table, and no dotted key into one with a header, except as the element of an array. -/
def changeAt (isDotted : Bool) (change : TableForm → Table → Option Table) :
    List Text → TableForm → Table → Option Table
  | [], form, table => change form table
  | key :: path, _, table =>
    match table.lookup key with
    | none => do
      let form : TableForm := if isDotted then .dotted else .implied
      return table ++ [(key, .table form (← changeAt isDotted change path form []))]
    | some (.table form inner) =>
      if form = .inline || (isDotted && form = .headed) then none
      else do return table.replace key (.table form (← changeAt isDotted change path form inner))
    | some (.elements (newest :: earlier)) => do
      return table.replace key
        (.elements ((← changeAt isDotted change path .headed newest) :: earlier))
    | some _ => none

/-- Adds an entry to a table that a dotted key led to, or to the current one for a plain key. -/
def add (isDotted : Bool) (key : Text) (value : Value) (form : TableForm) (table : Table) :
    Option Table :=
  if isDotted != (form == .dotted) || (table.lookup key).isSome then none
  else some (table ++ [(key, value)])

/-- Adds an entry under a dotted key. -/
def insert (table : Table) (form : TableForm) (path : List Text) (key : Text) (value : Value) :
    Option Table :=
  changeAt true (add (!path.isEmpty) key value) path form table

/-- Opens a table that is new or was only implied. -/
def openHeaded (key : Text) (_ : TableForm) (table : Table) : Option Table :=
  match table.lookup key with
  | none => some (table ++ [(key, .table .headed [])])
  | some (.table .implied inner) => some (table.replace key (.table .headed inner))
  | some _ => none

/-- Opens a further element of an array of tables. -/
def openElement (key : Text) (_ : TableForm) (table : Table) : Option Table :=
  match table.lookup key with
  | none => some (table ++ [(key, .elements [[]])])
  | some (.elements tables) => some (table.replace key (.elements ([] :: tables)))
  | some _ => none

end Table

end UtilityCss.Toml
