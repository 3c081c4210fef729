import UtilityCss.Toml.Moment
import UtilityCss.Toml.Number

/-!
Whole documents. A document is a run of lines: entries go into the table that was opened last, at
first into the document's own.
-/
namespace UtilityCss.Toml

open Reader

def boolean : Reader Value :=
  (do word "true"; return .boolean true) <|> (do word "false"; return .boolean false)

/-- The table of entries written between braces. -/
def inlineTable (entries : List ((List Text × Text) × Value)) : Option Value := do
  let table ← entries.foldlM (fun table ((path, name), value) =>
    Table.insert table .inline path name value) []
  return .table .inline table

/-- Items between brackets, over as many lines as it takes; a comma may follow the last one. -/
def list (item : Reader Value) : Reader Value := do
  mark '['
  let items ← optional do
    let items ← separated ',' do
      filler
      let found ← item
      filler
      return found
    let _ ← optional (mark ',')
    return items
  filler
  mark ']'
  return .list (items.getD [])

/-- Entries between braces, on one line, with no comma after the last one. -/
def braced (item : Reader Value) : Reader Value := do
  mark '\x7b'
  let entries ← optional <| separated ',' do
    let name ← key
    mark '='
    blanks
    let found ← item
    blanks
    return (name, found)
  blanks
  mark '\x7d'
  inlineTable (entries.getD [])

def scalar : Reader Value :=
  (do return .text (← string)) <|> moment <|> real <|> integer <|> boolean

/-- A value with at most so many arrays and inline tables around one another. -/
def value : Nat → Reader Value
  | 0 => scalar
  | depth + 1 => scalar <|> list (value depth) <|> braced (value depth)

/-- The most arrays and inline tables that may stand around one another. -/
def maxDepth : Nat := 79

inductive Line where
  | empty
  | entry (path : List Text) (name : Text) (value : Value)
  | header (path : List Text) (name : Text)
  | element (path : List Text) (name : Text)

def line : Reader Line := do
  blanks
  elementLine <|> headerLine <|> entryLine <|> emptyLine <|> commentLine
where
  elementLine : Reader Line := do
    word "[["
    let (path, name) ← key
    word "]]"
    lineEnd
    return .element path name
  headerLine : Reader Line := do
    mark '['
    let (path, name) ← key
    mark ']'
    lineEnd
    return .header path name
  entryLine : Reader Line := do
    let (path, name) ← key
    mark '='
    blanks
    let item ← value maxDepth
    lineEnd
    return .entry path name item
  emptyLine : Reader Line := do
    lineBreak
    return .empty
  commentLine : Reader Line := do
    comment
    lineBreak <|> ended
    return .empty

/-- A document so far, with the way to the table that was opened last. -/
structure Draft where
  table : Table
  current : List Text

/-- Changes the table at a path from the document's own. -/
def Draft.change (draft : Draft) (path : List Text)
    (change : TableForm → Table → Option Table) : Option Table :=
  Table.changeAt false change path .headed draft.table

def Draft.take (draft : Draft) : Line → Option Draft
  | .empty => some draft
  | .entry path name value => do
    let table ← draft.change draft.current fun form table => table.insert form path name value
    return { draft with table }
  | .header path name => do
    return ⟨← draft.change path (Table.openHeaded name), path ++ [name]⟩
  | .element path name => do
    return ⟨← draft.change path (Table.openElement name), path ++ [name]⟩

def lines : Reader (List Line) := do
  let _ ← optional (mark '\uFEFF')
  let found ← many line
  blanks
  ended
  return found

def document? (text : Text) : Option Table := do
  let (found, _) ← lines text
  let draft ← found.foldlM Draft.take ⟨[], []⟩
  return draft.table

end UtilityCss.Toml
