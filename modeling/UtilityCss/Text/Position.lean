import UtilityCss.Text.Basic

/-!
Positions in a text. Lines end at newline characters and columns count characters, both from one;
offsets count octets. An offset past the end stands for the end, and so does one that falls inside
a character.
-/
namespace UtilityCss

structure Position where
  line : Nat
  column : Nat
  deriving DecidableEq, Repr

namespace Position

def start : Position := ⟨1, 1⟩

def after (p : Position) (c : Char) : Position :=
  if c = '\n' then ⟨p.line + 1, 1⟩ else ⟨p.line, p.column + 1⟩

def afterText (p : Position) (text : Text) : Position :=
  text.foldl after p

/-- Moves on by a number of octets, or not at all when they end inside a character. -/
def advance? (p : Position) : Text → Nat → Option Position
  | [], _ => some p
  | _ :: _, 0 => some p
  | c :: rest, n + 1 =>
    if c.utf8Size ≤ n + 1 then (p.after c).advance? rest (n + 1 - c.utf8Size) else none

def ofOffset (text : Text) (offset : Nat) : Position :=
  (start.advance? text offset).getD (start.afterText text)

/-- The message of a fault with the place where it was found. -/
def describe (p : Position) (message : String) : String :=
  s!"{message} on line {p.line} and column {p.column}"

end Position

end UtilityCss
