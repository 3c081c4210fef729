import UtilityCss.Text.Basic

/-!
Reading a text from its start. A reader takes what it understands off the front and leaves the rest,
or fails and leaves all.
-/
namespace UtilityCss.Toml

abbrev Reader := StateT Text Option

namespace Reader

def one (accepts : Char → Bool) : Reader Char
  | c :: rest => if accepts c then some (c, rest) else none
  | [] => none

def mark (c : Char) : Reader Unit := do
  let _ ← one (· == c)

/-- The longest run of accepted characters, which may be empty. -/
def run (accepts : Char → Bool) : Reader Text :=
  fun text => some (text.span accepts)

def someRun (accepts : Char → Bool) : Reader Text := do
  let found ← run accepts
  if found.isEmpty then failure else return found

def word (expected : String) : Reader Unit :=
  expected.toList.forM mark

/-- Reads at most as often as there are characters in the given text. -/
def manyFrom {α : Type} (reader : Reader α) (found : List α) : Text → Reader (List α)
  | [] => pure found.reverse
  | _ :: left => fun text =>
    match reader text with
    | some (a, rest) => manyFrom reader (a :: found) left rest
    | none => some (found.reverse, text)

/-- Reads as often as it goes, for a reader that takes something each time. -/
def many {α : Type} (reader : Reader α) : Reader (List α) :=
  fun text => manyFrom reader [] text text

/-- At least one, with a separating mark before each further one. -/
def separated {α : Type} (separator : Char) (reader : Reader α) : Reader (List α) := do
  let first ← reader
  let others ← many (do mark separator; reader)
  return first :: others

def ended : Reader Unit
  | [] => some ((), [])
  | _ :: _ => none

def isBlank (c : Char) : Bool :=
  c == ' ' || c == '\t'

def blanks : Reader Unit := do
  let _ ← run isBlank

def lineBreak : Reader Unit
  | '\n' :: rest => some ((), rest)
  | '\r' :: '\n' :: rest => some ((), rest)
  | _ => none

/-- Characters that may stand in a comment or a string on one line. -/
def isPlain (c : Char) : Bool :=
  c == '\t' || (' ' ≤ c && c != '\x7F')

def comment : Reader Unit := do
  mark '#'
  let _ ← run isPlain

/-- The rest of a line on which nothing but a comment follows. -/
def lineEnd : Reader Unit := do
  blanks
  let _ ← optional comment
  lineBreak <|> ended

/-- Blanks, line breaks and comments between the items of an array. -/
def filler : Reader Unit := do
  let _ ← many ((do let _ ← someRun isBlank) <|> lineBreak <|> comment)

end Reader

end UtilityCss.Toml
