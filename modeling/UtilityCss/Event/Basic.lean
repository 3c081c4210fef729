import UtilityCss.Token.Basic

/-!
The flat word of events that stands for a stylesheet. Blocks appear as begin and end events around
what they hold. A selector list of n groups is n - 1 group events and the begin event of its
ruleset, which carries the last group.
-/
namespace UtilityCss

inductive Event where
  | atRule (name : Text) (values : List Token)
  | beginAtRule (name : Text) (values : List Token)
  | endAtRule
  | selectorGroup (selector : List Token)
  | beginRuleset (selector : List Token)
  | endRuleset
  | declaration (name : Text) (values : List Token)
  | customProperty (name : Text) (raw : Text)
  | marker (text : Text)
  | comment (text : Text)
  deriving DecidableEq, Repr

namespace Event

def values : Event → List Token
  | atRule _ values | beginAtRule _ values | declaration _ values => values
  | selectorGroup selector | beginRuleset selector => selector
  | customProperty _ raw => [⟨.customPropertyValue, raw⟩]
  | endAtRule | endRuleset | marker _ | comment _ => []

/-- The pieces an event is written as: its name and values as they stand and the punctuation its
reading consumed. Comments and markup escapes are not written. -/
def pieces : Event → List Text
  | atRule name values => name :: values.map (·.text) ++ [[';']]
  | beginAtRule name values => name :: values.map (·.text) ++ [['\x7b']]
  | selectorGroup selector => selector.map (·.text) ++ [[',']]
  | beginRuleset selector => selector.map (·.text) ++ [['\x7b']]
  | endAtRule | endRuleset => [['\x7d']]
  | declaration name values => name :: [':'] :: values.map (·.text) ++ [[';']]
  | customProperty name raw => [name, [':'], raw, [';']]
  | marker _ | comment _ => []

def written (event : Event) : Text :=
  event.pieces.flatten

@[simp] theorem written_declaration (name : Text) (values : List Token) :
    (declaration name values).written = name ++ ':' :: (values.map (·.text)).flatten ++ [';'] := by
  simp [written, pieces]

@[simp] theorem written_customProperty (name raw : Text) :
    (customProperty name raw).written = name ++ ':' :: raw ++ [';'] := by
  simp [written, pieces]

end Event

end UtilityCss
