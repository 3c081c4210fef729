import UtilityCss.Settings.Setting
import UtilityCss.Toml.Reader

/-!
Paths to a setting: a name, then further names after points and list indices in brackets. Names may
have blanks in them.
-/
namespace UtilityCss

inductive Step where
  | name (key : Text)
  | index (n : Int)
  deriving DecidableEq

/-- The steps from the root; the first one is a name. -/
abbrev KeyPath := List Step

namespace KeyPath

open Toml Toml.Reader

def isNameChar (c : Char) : Bool :=
  c.isAlphanum || c == ' ' || c == '_' || c == '-'

def name : Reader Step := do
  return .name (← someRun isNameChar)

/-- An index has to fit into 64 bits. -/
def index : Reader Step := do
  mark '['
  blanks
  let negative := (← optional (mark '-')).isSome
  let size := (Decimal.ofDigitText (← someRun Char.isDigit) : Int)
  let n := if negative then -size else size
  blanks
  mark ']'
  if Decimal.fits64 n then return .index n else failure

def steps : Reader KeyPath := do
  let first ← name
  let others ← many ((do mark '.'; name) <|> index)
  ended
  return first :: others

def ofText? (text : Text) : Option KeyPath :=
  (steps text).map (·.1)

end KeyPath

namespace Setting

/-- Sets what a path leads to. A table that is set by name is merged, all else replaces. -/
def setAt (value : Setting) : KeyPath → Setting → Setting
  | [], target => target
  | [.name key], target => target.put key value
  | [.index n], target => target.atIndex n fun _ => value
  | .name key :: path, target => target.atKey key nothing (setAt value path)
  | .index n :: path, target => target.atIndex n (setAt value path)

/-- Sets a top-level entry of a file, whose key is taken as a path if it can be. -/
def setEntry (target : Setting) (key : Text) (value : Setting) : Setting :=
  match KeyPath.ofText? key with
  | some path => setAt value path target
  | none => target.put key value

end Setting

end UtilityCss
