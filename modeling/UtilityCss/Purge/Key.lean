import Std.Data.TreeSet
import UtilityCss.Convert.Error
import UtilityCss.Event.Parser

/-!
Purge keys. A rule whose selector begins with a class is keyed by the class name without its
escapes; whatever follows the first compound is disregarded. The keys of a stylesheet are those of
all its selector groups.
-/
namespace UtilityCss

abbrev KeySet := Std.TreeSet String

namespace PurgeKey

def unescapeFrom (found : Text) : Text → Text
  | '\\' :: c :: rest => unescapeFrom (c :: found) rest
  | c :: rest => unescapeFrom (if c = '\\' then found else c :: found) rest
  | [] => found.reverse

/-- Takes away every backslash that is not itself escaped. -/
def unescape (text : Text) : Text :=
  unescapeFrom [] text

/-- The key of a rule's selector; none where it begins with no class. -/
def ofSelector? (selector : List Token) : Option String :=
  match selector.filter (!·.kind.isTrivia) with
  | ⟨.delim, ['.']⟩ :: ⟨.ident, name⟩ :: _ =>
    let key := unescape name
    if key.isEmpty then none else some (String.ofList key)
  | _ => none

def ofEvent? : Event → Option String
  | .selectorGroup selector | .beginRuleset selector => ofSelector? selector
  | _ => none

def ofEvents (events : List Event) : KeySet :=
  events.foldl (fun keys event => (ofEvent? event).elim keys keys.insert) ∅

def ofStyles (source : String) (css : Text) : Except ConvertError KeySet :=
  let reading := Reading.ofText css false
  match reading.error with
  | some error => .error (.syntaxError source error)
  | none => .ok (ofEvents reading.events)

def ofFeed (source : String) (feed : Feed) : Except ConvertError KeySet :=
  match feed.text with
  | .error error => .error (.io source error)
  | .ok css => ofStyles source css

/-- The keys that a distribution knows, or else those of its utilities. -/
def ofDistribution (dist : Distribution) : Except ConvertError KeySet :=
  match dist.purgeKeys with
  | some keys => .ok (.ofList keys)
  | none =>
    let part := Section.utilities
    match dist.openSection part with
    | .error error => .error (.distribution part.sourceName part error)
    | .ok source => ofFeed part.sourceName (source [])

end PurgeKey

end UtilityCss
