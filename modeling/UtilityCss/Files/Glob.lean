import UtilityCss.Files.Pattern

/-!
File name globs. A question mark stands for one octet and a star for any number of them, both
within one name; two stars between slashes stand for any number of whole names. Brackets hold a
class of octets, braces alternatives, and a backslash takes the next character as it is. A glob
with an unclosed class or group, a backwards range or a backslash at its end means nothing.
-/
namespace UtilityCss.Glob

def slash : UInt8 := 0x2F

inductive Piece where
  | literal (c : Char)
  | one
  | run
  | deepStart
  | deepMiddle
  | deepEnd
  | oneOf (negated : Bool) (ranges : List (Char × Char))
  /-- Alternatives; none when all of them are blank. -/
  | group (choice : Option Pattern)

def anything : Pattern := .many (.one fun _ => true)

def within : UInt8 → Bool := (· != slash)

/-- The octets that a range of characters stands for: the ends may be of several octets each, of
which only the two that meet form a range. -/
def rangeAccepts (low high : Char) (b : UInt8) : Bool :=
  let lows := Octets.ofText [low]
  let highs := Octets.ofText [high]
  if low = high then lows.contains b
  else
    lows.dropLast.contains b || (highs.drop 1).contains b ||
      ((lows.getLast?.getD 0) ≤ b && b ≤ (highs.head?.getD 0))

def Piece.pattern? : Piece → Option Pattern
  | literal c => some (.literal (Octets.ofText [c]))
  | one => some (.one within)
  | run => some (.many (.one within))
  | deepStart =>
    some (.orElse (.orElse .blank (.literal [slash])) (.andThen anything (.literal [slash])))
  | deepMiddle =>
    some (.orElse (.literal [slash])
      (.andThen (.literal [slash]) (.andThen anything (.literal [slash]))))
  | deepEnd => some (.andThen (.literal [slash]) anything)
  | oneOf negated ranges =>
    some (.one fun b => (ranges.any fun range => rangeAccepts range.1 range.2 b) != negated)
  | group choice => choice

/-- The pattern of pieces kept newest first, none when they are all blank. -/
def piecesPattern? (pieces : List Piece) : Option Pattern :=
  let patterns := pieces.reverse.filterMap Piece.pattern?
  if patterns.isEmpty then none else some (.all patterns)

/-- A group being read: the alternatives before the current one. -/
structure Frame where
  choices : List Pattern
  pieces : List Piece

/-- The current alternative and those of the groups around it, innermost first. -/
structure Reader where
  pieces : List Piece
  outer : List Frame
  choices : List Pattern
  last : Option Char

namespace Reader

def push (r : Reader) (piece : Piece) : Reader :=
  { r with pieces := piece :: r.pieces }

def openGroup (r : Reader) : Reader :=
  { r with pieces := [], choices := [], outer := ⟨r.choices, r.pieces⟩ :: r.outer }

def allChoices (r : Reader) : List Pattern :=
  (piecesPattern? r.pieces).toList ++ r.choices

def nextChoice (r : Reader) : Reader :=
  { r with pieces := [], choices := r.allChoices }

def closeGroup? (r : Reader) : Option Reader :=
  match r.outer with
  | [] => none
  | frame :: outer =>
    let choice := if r.allChoices.isEmpty then none else some (Pattern.any r.allChoices)
    some { r with pieces := .group choice :: frame.pieces, choices := frame.choices, outer }

def isGrouped (r : Reader) : Bool :=
  !r.outer.isEmpty

end Reader

/-- The state of reading a class: its ranges newest first, and whether a dash waits for its end. -/
structure ClassReader where
  ranges : List (Char × Char)
  waiting : Bool

namespace ClassReader

def extend? (r : ClassReader) (c : Char) : Option ClassReader :=
  match r.ranges with
  | (low, _) :: rest => if c < low then none else some ⟨(low, c) :: rest, false⟩
  | [] => none

/-- The next character of a class, where the first one is never special. -/
def next? (r : ClassReader) (c : Char) : Option ClassReader :=
  if r.ranges.isEmpty then some ⟨[(c, c)], false⟩
  else if r.waiting then r.extend? c
  else if c = '-' then some { r with waiting := true }
  else some { r with ranges := (c, c) :: r.ranges }

def finish (r : ClassReader) : List (Char × Char) :=
  if r.waiting then ('-', '-') :: r.ranges else r.ranges

end ClassReader

/-- Reads a class to its closing bracket. -/
def readClass? (r : ClassReader) : Text → Option (List (Char × Char) × Text)
  | [] => none
  | c :: rest =>
    if c = ']' && !r.ranges.isEmpty then some (r.finish, rest)
    else match r.next? c with
      | some r => readClass? r rest
      | none => none

/-- Two stars: what they stand for, and how many characters after them they take along. -/
def deep (r : Reader) (rest : Text) : Reader × Nat :=
  let plain := (r.push .run).push .run
  match r.pieces, rest with
  | [], [] => (r.push .deepStart, 0)
  | [], c :: _ => if c = '/' then (r.push .deepStart, 1) else (plain, 0)
  | previous :: pieces, rest =>
    let opens := r.isGrouped && (r.last == some ',' || r.last == some '\x7b')
    if r.last != some '/' && !opens then (plain, 0)
    else
      let replaced (piece : Piece) : Reader :=
        match previous with
        | .deepStart | .deepEnd => r
        | _ => { r with pieces := piece :: pieces }
      match rest with
      | [] => (replaced .deepEnd, 0)
      | c :: _ =>
        if c = '/' then (replaced .deepMiddle, 1)
        else if r.isGrouped && (c = ',' || c = '\x7d') then (replaced .deepEnd, 0)
        else (plain, 0)

/-- Reads a glob, given enough fuel for one step a character. -/
def read? : Nat → Reader → Text → Option Reader
  | _, r, [] => if r.isGrouped then none else some r
  | 0, _, _ :: _ => none
  | fuel + 1, r, c :: rest =>
    let seen (r : Reader) : Reader := { r with last := some c }
    if c = '?' then read? fuel (seen (r.push .one)) rest
    else if c = '*' then
      match rest with
      | '*' :: rest =>
        let (r, taken) := deep r rest
        read? fuel { r with last := ((c :: rest).take (taken + 1)).getLast? } (rest.drop taken)
      | _ => read? fuel (seen (r.push .run)) rest
    else if c = '[' then
      let negated := rest.head? == some '!' || rest.head? == some '^'
      match readClass? ⟨[], false⟩ (if negated then rest.drop 1 else rest) with
      | some (ranges, rest) => read? fuel { r.push (.oneOf negated ranges) with last := ']' } rest
      | none => none
    else if c = '\x7b' then read? fuel (seen r.openGroup) rest
    else if c = '\x7d' then
      match r.closeGroup? with
      | some r => read? fuel (seen r) rest
      | none => none
    else if c = ',' && r.isGrouped then read? fuel (seen r.nextChoice) rest
    else if c = '\\' then
      match rest with
      | e :: rest => read? fuel { r.push (.literal e) with last := some e } rest
      | [] => none
    else read? fuel (seen (r.push (.literal c))) rest

/-- The pattern of a glob. Two stars alone match everything. -/
def pattern? (glob : Text) : Option Pattern := do
  let r ← read? glob.length ⟨[], [], [], none⟩ glob
  match r.pieces with
  | [.deepStart] => some anything
  | pieces => some ((piecesPattern? pieces).getD .blank)

end UtilityCss.Glob
