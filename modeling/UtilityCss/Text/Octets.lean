import UtilityCss.Text.Basic

/-!
UTF-8 octets. Both readers take octets apart the same way, into characters and broken pieces: a
piece is broken where the octets so far begin no character, and it is as long as the longest
beginning of a character found there. The strict reader refuses broken pieces, the lenient one
puts U+FFFD in their place.
-/
namespace UtilityCss

abbrev Octets := List UInt8

namespace Octets

def ofText (text : Text) : Octets :=
  text.flatMap String.utf8EncodeChar

theorem ofText_cons (c : Char) (text : Text) :
    ofText (c :: text) = String.utf8EncodeChar c ++ ofText text :=
  List.flatMap_cons

theorem ofText_append (text more : Text) : ofText (text ++ more) = ofText text ++ ofText more :=
  List.flatMap_append

def within (low high : Nat) (b : UInt8) : Bool :=
  low ≤ b.toNat && b.toNat ≤ high

def isTail (b : UInt8) : Bool :=
  within 0x80 0xBF b

/-- The octets that may follow the first one of a character of three or four octets. -/
def isSecond (first second : UInt8) : Bool :=
  if first = 0xE0 then within 0xA0 0xBF second
  else if first = 0xED then within 0x80 0x9F second
  else if first = 0xF0 then within 0x90 0xBF second
  else if first = 0xF4 then within 0x80 0x8F second
  else isTail second

/-- The character of a lead value and the tails after it, six bits each. -/
def join (lead : Nat) (tails : Octets) : Char :=
  Char.ofNat (tails.foldl (fun n b => n * 64 + b.toNat % 64) lead)

/--
The first piece of a non-empty run of octets, with the number of octets it holds beyond the
first. A broken piece is `none`.
-/
def piece (b : UInt8) (rest : Octets) : Option Char × Nat :=
  if b.toNat < 0x80 then (some (Char.ofNat b.toNat), 0)
  else if within 0xC2 0xDF b then
    match rest with
    | t :: _ => if isTail t then (some (join (b.toNat % 32) [t]), 1) else (none, 0)
    | [] => (none, 0)
  else if within 0xE0 0xEF b then
    match rest with
    | s :: t :: _ =>
      if !isSecond b s then (none, 0)
      else if isTail t then (some (join (b.toNat % 16) [s, t]), 2)
      else (none, 1)
    | [s] => if isSecond b s then (none, 1) else (none, 0)
    | [] => (none, 0)
  else if within 0xF0 0xF4 b then
    match rest with
    | s :: t :: u :: _ =>
      if !isSecond b s then (none, 0)
      else if !isTail t then (none, 1)
      else if isTail u then (some (join (b.toNat % 8) [s, t, u]), 3)
      else (none, 2)
    | [s, t] => if !isSecond b s then (none, 0) else if isTail t then (none, 2) else (none, 1)
    | [s] => if isSecond b s then (none, 1) else (none, 0)
    | [] => (none, 0)
  else (none, 0)

def piecesFrom (found : List (Option Char)) : Octets → List (Option Char)
  | [] => found.reverse
  | b :: rest => piecesFrom ((piece b rest).1 :: found) (rest.drop (piece b rest).2)
termination_by octets => octets.length

def pieces (octets : Octets) : List (Option Char) :=
  piecesFrom [] octets

def text? (octets : Octets) : Option Text :=
  let found := pieces octets
  if found.all Option.isSome then some (found.filterMap id) else none

def lenientText (octets : Octets) : Text :=
  (pieces octets).map (·.getD '\uFFFD')

end Octets

end UtilityCss
