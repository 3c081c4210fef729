import UtilityCss.Toml.Reader

/-!
Strings and keys. A basic string knows escapes, a literal one does not; either may be written over
several lines between three marks, with up to two more marks of its own kind at its end.
-/
namespace UtilityCss.Toml

open Reader

def hexValue? (c : Char) : Option Nat :=
  if '0' ≤ c && c ≤ '9' then some (c.toNat - '0'.toNat)
  else if 'a' ≤ c && c ≤ 'f' then some (c.toNat - 'a'.toNat + 10)
  else if 'A' ≤ c && c ≤ 'F' then some (c.toNat - 'A'.toNat + 10)
  else none

/-- The character with a code point in hexadecimal, where there is one. -/
def charOfHex? (digits : Text) : Option Char := do
  let n ← digits.foldlM (fun n c => (hexValue? c).map (16 * n + ·)) 0
  if h : n.isValidChar then return Char.ofNatAux n h else none

def escaped? : Char → Option Char
  | 'b' => some '\x08'
  | 't' => some '\t'
  | 'n' => some '\n'
  | 'f' => some '\x0C'
  | 'r' => some '\r'
  | '\x22' => some '\x22'
  | '\\' => some '\\'
  | _ => none

def basicFrom (found : Text) : Text → Option (Text × Text)
  | '\x22' :: rest => some (found.reverse, rest)
  | '\\' :: 'u' :: a :: b :: c :: d :: rest => do
    basicFrom ((← charOfHex? [a, b, c, d]) :: found) rest
  | '\\' :: 'U' :: a :: b :: c :: d :: e :: f :: g :: h :: rest => do
    basicFrom ((← charOfHex? [a, b, c, d, e, f, g, h]) :: found) rest
  | '\\' :: c :: rest => do basicFrom ((← escaped? c) :: found) rest
  | c :: rest => if isPlain c && c != '\\' then basicFrom (c :: found) rest else none
  | [] => none

def literalFrom (found : Text) : Text → Option (Text × Text)
  | '\'' :: rest => some (found.reverse, rest)
  | c :: rest => if isPlain c then literalFrom (c :: found) rest else none
  | [] => none

/-- What a backslash at the end of a line has done so far. -/
inductive Folding where
  | none
  /-- Only blanks since the backslash; a line break has to follow. -/
  | awaited
  /-- Blanks and line breaks are dropped up to anything else. -/
  | under
  deriving DecidableEq

def longBasicFrom (found : Text) : Folding → Text → Option (Text × Text)
  | .awaited, '\n' :: rest => longBasicFrom found .under rest
  | .awaited, '\r' :: '\n' :: rest => longBasicFrom found .under rest
  | .awaited, c :: rest => if isBlank c then longBasicFrom found .awaited rest else none
  | .under, '\n' :: rest => longBasicFrom found .under rest
  | _, '\x22' :: '\x22' :: '\x22' :: '\x22' :: '\x22' :: rest =>
    some (('\x22' :: '\x22' :: found).reverse, rest)
  | _, '\x22' :: '\x22' :: '\x22' :: '\x22' :: rest => some (('\x22' :: found).reverse, rest)
  | _, '\x22' :: '\x22' :: '\x22' :: rest => some (found.reverse, rest)
  | _, '\\' :: 'u' :: a :: b :: c :: d :: rest => do
    longBasicFrom ((← charOfHex? [a, b, c, d]) :: found) .none rest
  | _, '\\' :: 'U' :: a :: b :: c :: d :: e :: f :: g :: h :: rest => do
    longBasicFrom ((← charOfHex? [a, b, c, d, e, f, g, h]) :: found) .none rest
  | _, '\\' :: '\n' :: rest => longBasicFrom found .under rest
  | _, '\\' :: '\r' :: '\n' :: rest => longBasicFrom found .under rest
  | _, '\\' :: c :: rest =>
    if isBlank c then longBasicFrom found .awaited rest
    else do longBasicFrom ((← escaped? c) :: found) .none rest
  | folding, '\r' :: '\n' :: rest =>
    if folding = .under then longBasicFrom found .under rest
    else longBasicFrom ('\n' :: found) .none rest
  | folding, c :: rest =>
    if folding = .under && isBlank c then longBasicFrom found .under rest
    else if c = '\n' || (isPlain c && c != '\\') then longBasicFrom (c :: found) .none rest
    else none
  | _, [] => none

def longLiteralFrom (found : Text) : Text → Option (Text × Text)
  | '\'' :: '\'' :: '\'' :: '\'' :: '\'' :: rest => some (('\'' :: '\'' :: found).reverse, rest)
  | '\'' :: '\'' :: '\'' :: '\'' :: rest => some (('\'' :: found).reverse, rest)
  | '\'' :: '\'' :: '\'' :: rest => some (found.reverse, rest)
  | '\r' :: '\n' :: rest => longLiteralFrom ('\n' :: found) rest
  | c :: rest => if c = '\n' || isPlain c then longLiteralFrom (c :: found) rest else none
  | [] => none

def basic : Reader Text := do
  mark '\x22'
  basicFrom []

def literal : Reader Text := do
  mark '\''
  literalFrom []

/-- A line break right after the opening marks is not part of the string. -/
def longBasic : Reader Text := do
  word "\"\"\""
  let _ ← optional lineBreak
  longBasicFrom [] .none

def longLiteral : Reader Text := do
  word "'''"
  let _ ← optional lineBreak
  longLiteralFrom []

def string : Reader Text :=
  longBasic <|> basic <|> longLiteral <|> literal

def isBare (c : Char) : Bool :=
  c.isAlphanum || c == '-' || c == '_'

def simpleKey : Reader Text :=
  basic <|> literal <|> someRun isBare

/-- The most names a dotted key may have. -/
def maxNames : Nat := 79

/-- The names of a dotted key, the last one apart. -/
def key : Reader (List Text × Text) := do
  let names ← separated '.' do
    blanks
    let name ← simpleKey
    blanks
    return name
  if maxNames < names.length then failure
  else return (names.dropLast, names.getLast?.getD [])

end UtilityCss.Toml
