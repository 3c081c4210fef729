import UtilityCss.Source
import UtilityCss.Text.Quoted

/-!
What can be wrong with settings. A value of the wrong type is reported with the path to it and the
file it came from; faults in how settings are put together have neither.
-/
namespace UtilityCss

/-- What stands where something else was expected. -/
inductive Unexpected where
  | unit
  | boolean (b : Bool)
  | integer (n : Int)
  /-- A number as it is written with its point. -/
  | real (digits : Text)
  | text (content : Text)
  | list
  | table
  deriving DecidableEq, Repr

def Unexpected.describe : Unexpected → String
  | unit => "unit value"
  | boolean b => s!"boolean `{b}`"
  | integer n => s!"integer `{n}`"
  | real digits => "floating point `" ++ String.ofList digits ++ "`"
  | text content => "string " ++ String.ofList content.quoted
  | list => "sequence"
  | table => "map"

inductive SettingsError where
  | mistyped (found : Unexpected) (expected : String) (key : Text) (origin : Option Text)
  | misshapen (found : Unexpected) (expected : String)
  | tooShort (count : Nat) (expected : String)
  | missing (field : String)
  | unknownLevel (name : Text)
  | noLevel
  | missingFile (path : Text)
  | unreadable (error : IoError)
  | badFile
  | badKey
  deriving DecidableEq, Repr

namespace SettingsError

/-- The error seen from one step further out. Between two names stands a point. -/
def inside (outer : Text) : SettingsError → SettingsError
  | mistyped found expected key origin =>
    let gap := if key.isEmpty || key.head? = some '[' then [] else ['.']
    mistyped found expected (outer ++ gap ++ key) origin
  | error => error

/-- A list item is named by its index alone. -/
def insideItem (index : Nat) : SettingsError → SettingsError
  | mistyped found expected key origin =>
    mistyped found expected ('[' :: Nat.toDigits 10 index ++ ']' :: key) origin
  | error => error

/-- The message; for a file or a key that cannot be read there is none. -/
def message? : SettingsError → Option String
  | mistyped found expected key origin =>
    some ("invalid type: " ++ found.describe ++ ", expected " ++ expected ++
      (if key.isEmpty then "" else " for key `" ++ String.ofList key ++ "`") ++
      (match origin with
        | some path => " in " ++ String.ofList path
        | none => ""))
  | misshapen found expected =>
    some ("invalid type: " ++ found.describe ++ ", expected " ++ expected)
  | tooShort count expected => some s!"invalid length {count}, expected {expected}"
  | missing field => some s!"missing field `{field}`"
  | unknownLevel name =>
    some ("enum LogLevel does not have variant constructor " ++ String.ofList name)
  | noLevel =>
    some ("value of enum LogLevel should be represented by either string or table with exactly " ++
      "one key")
  | missingFile path => some ("configuration file \"" ++ String.ofList path ++ "\" not found")
  | unreadable error => some error.message
  | badFile | badKey => none

end SettingsError

end UtilityCss
