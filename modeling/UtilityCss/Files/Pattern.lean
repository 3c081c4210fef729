import UtilityCss.Text.Octets

/-!
Patterns for strings of octets, matched one octet at a time: what a pattern still wants after an
octet is a pattern again.
-/
namespace UtilityCss

inductive Pattern where
  | never
  | blank
  | one (accepts : UInt8 → Bool)
  | both (first second : Pattern)
  | either (left right : Pattern)
  | many (repeated : Pattern)

namespace Pattern

def acceptsBlank : Pattern → Bool
  | never | one _ => false
  | blank | many _ => true
  | both first second => first.acceptsBlank && second.acceptsBlank
  | either left right => left.acceptsBlank || right.acceptsBlank

def isNever : Pattern → Bool
  | never => true
  | _ => false

/-- One pattern after another. -/
def andThen : Pattern → Pattern → Pattern
  | never, _ => never
  | blank, second => second
  | first, second => both first second

/-- One pattern or another. -/
def orElse (left right : Pattern) : Pattern :=
  if left.isNever then right else if right.isNever then left else either left right

/-- What is left of a pattern after one octet. -/
def after (b : UInt8) : Pattern → Pattern
  | never | blank => never
  | one accepts => if accepts b then blank else never
  | both first second =>
    let rest := (first.after b).andThen second
    if first.acceptsBlank then rest.orElse (second.after b) else rest
  | either left right => (left.after b).orElse (right.after b)
  | many repeated => (repeated.after b).andThen (many repeated)

def accepts (pattern : Pattern) (octets : Octets) : Bool :=
  (octets.foldl (fun p b => p.after b) pattern).acceptsBlank

/-- Exactly these octets. -/
def literal (octets : Octets) : Pattern :=
  octets.foldr (fun b rest => andThen (one (· == b)) rest) blank

def all (patterns : List Pattern) : Pattern :=
  patterns.foldr andThen blank

def any (patterns : List Pattern) : Pattern :=
  patterns.foldr orElse never

end Pattern

end UtilityCss
