import UtilityCss.Files.Path
import UtilityCss.Settings.Error
import UtilityCss.Settings.Level
import UtilityCss.Settings.Setting

/-!
From settings to what they mean. A truth value may be written as a word or a number and a text as
any scalar, so that only lists and tables are never taken for another type. A table of fields may be
given as the list of its fields in order.
-/
namespace UtilityCss

structure PurgeSettings where
  enabled : Bool
  paths : List Text
  extensions : List Text
  deriving DecidableEq, Repr

structure Settings where
  /-- The directory of the distribution. -/
  distribution : Option Text
  purge : PurgeSettings
  minify : Bool
  level : Level
  deriving DecidableEq, Repr

namespace PurgeSettings

def isActive (purge : PurgeSettings) : Bool :=
  purge.enabled && !purge.paths.isEmpty

def sameLetters (a b : Text) : Bool :=
  a.map Char.toLower == b.map Char.toLower

/-- Whether a file found on a walk is to be scanned; the case of ASCII letters does not matter. -/
def wantsFile (purge : PurgeSettings) (path : Text) : Bool :=
  match Path.extension? path with
  | some extension => purge.extensions.any (sameLetters extension)
  | none => false

end PurgeSettings

namespace Setting

def unexpected : Setting → Unexpected
  | .scalar _ .nothing => .unit
  | .scalar _ (.boolean b) => .boolean b
  | .scalar _ (.integer n) => .integer n
  | .scalar _ (.real x) => .real x.pointedText
  | .scalar _ (.text content) => .text content
  | .list .. => .list
  | .table .. => .table

def truths : List (String × Bool) :=
  [("1", true), ("true", true), ("on", true), ("yes", true),
    ("0", false), ("false", false), ("off", false), ("no", false)]

def toBool (setting : Setting) : Except SettingsError Bool :=
  let mistyped (found : Unexpected) : Except SettingsError Bool :=
    .error (.mistyped found "a boolean" [] setting.origin)
  match setting with
  | .scalar _ (.boolean b) => .ok b
  | .scalar _ (.integer n) => .ok (n != 0)
  | .scalar _ (.real x) => .ok !x.isZero
  | .scalar _ (.text content) =>
    match truths.lookup (String.ofList content.lower) with
    | some b => .ok b
    | none => mistyped (.text content.lower)
  | other => mistyped other.unexpected

def toText (setting : Setting) : Except SettingsError Text :=
  match setting with
  | .scalar _ (.text content) => .ok content
  | .scalar _ (.boolean b) => .ok (toString b).toList
  | .scalar _ (.integer n) => .ok (toString n).toList
  | .scalar _ (.real x) => .ok x.text
  | other => .error (.mistyped other.unexpected "a string" [] setting.origin)

/-- The text of a setting that may be left out. -/
def toText? : Setting → Except SettingsError (Option Text)
  | .scalar _ .nothing => .ok none
  | setting => some <$> setting.toText

def toTexts : Setting → Except SettingsError (List Text)
  | .list _ items => items.zipIdx.mapM fun (item, n) => item.toText.mapError (.insideItem n)
  | other => .error (.misshapen other.unexpected "a sequence")

/-- The variant that a text names, in any case, or the one key of a table. -/
def toLevel (setting : Setting) : Except SettingsError Level :=
  let named (name : Text) : Except SettingsError Level :=
    match Level.all.find? fun level => level.name.toList == name.lower with
    | some level => .ok level
    | none => .error (.unknownLevel name)
  match setting with
  | .scalar _ (.text name) => named name
  | .table _ [(name, _)] => named name
  | _ => .error .noLevel

/-- A group of named fields, from a table or from the list of the fields in order. -/
structure Fields where
  ofName : String → Option Setting
  ofPlace : Nat → Option Setting

/-- A table knows its fields by name, a list by place. -/
def fields (expected : String) : Setting → Except SettingsError Fields
  | .table _ entries => .ok ⟨fun name => entries.lookup name.toList, fun _ => none⟩
  | .list _ items => .ok ⟨fun _ => none, (items[·]?)⟩
  | other => .error (.misshapen other.unexpected expected)

/-- Reads a field where it is there. An error names the field, or its place in a list. -/
def Fields.read? {α : Type} (group : Fields) (name : String) (place : Nat)
    (decode : Setting → Except SettingsError α) : Except SettingsError (Option α) :=
  match group.ofName name, group.ofPlace place with
  | some setting, _ => some <$> (decode setting).mapError (.inside name.toList)
  | none, some setting => some <$> (decode setting).mapError (.insideItem place)
  | none, none => .ok none

/-- What to say of a field that is not there. -/
def absent (setting : Setting) (name : String) (place : Nat) (expected : String) : SettingsError :=
  match setting with
  | .list .. => .tooShort place expected
  | _ => .missing name

def toPurge (setting : Setting) : Except SettingsError PurgeSettings := do
  let group ← setting.fields "struct PurgeConfig"
  let expected := "struct PurgeConfig with 3 elements"
  let enabled ← group.read? "enabled" 0 toBool
  let paths ← group.read? "paths" 1 toTexts
  let extensions ← group.read? "extensions" 2 toTexts
  let some enabled := enabled | .error (setting.absent "enabled" 0 expected)
  let some extensions := extensions | .error (setting.absent "extensions" 2 expected)
  return ⟨enabled, paths.getD [], extensions⟩

/-- The one field of a group. -/
def onlyField {α : Type} (setting : Setting) (group name : String)
    (decode : Setting → Except SettingsError α) : Except SettingsError α := do
  match ← (← setting.fields group).read? name 0 decode with
  | some a => return a
  | none => .error (setting.absent name 0 (group ++ " with 1 element"))

def toDistribution (setting : Setting) : Except SettingsError (Option Text) := do
  return (← (← setting.fields "struct DistConfig").read? "dir" 0 toText?).join

end Setting

namespace Settings

/-- Decodes a named part of the settings. -/
def part {α : Type} (entries : List (Text × Setting)) (name : String)
    (decode : Setting → Except SettingsError α) : Except SettingsError (Option α) :=
  match entries.lookup name.toList with
  | some setting => some <$> (decode setting).mapError (.inside name.toList)
  | none => .ok none

def required {α : Type} (name : String) : Option α → Except SettingsError α
  | some a => .ok a
  | none => .error (.missing name)

/-- Decodes what has been gathered from all layers. Everything but the distribution is required. -/
def ofSetting : Setting → Except SettingsError Settings
  | .table _ entries => do
    let distribution ← part entries "dist" Setting.toDistribution
    let purge ← part entries "purge" Setting.toPurge
    let minify ← part entries "output" (·.onlyField "struct OutputConfig" "minify" Setting.toBool)
    let level ← part entries "log" (·.onlyField "struct LogConfig" "level" Setting.toLevel)
    return {
      distribution := distribution.join
      purge := ← required "purge" purge
      minify := ← required "output" minify
      level := ← required "log" level }
  | other => .error (.misshapen other.unexpected "struct TwcssConfig")

end Settings

end UtilityCss
