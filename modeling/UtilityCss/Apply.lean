import UtilityCss.Convert.Error
import UtilityCss.Event.Parser

/-!
The index behind `@apply`: the declarations of the utility rules that are selected by one class
alone and stand outside every at-rule. What an at-rule block inside such a rule holds is left out.
-/
namespace UtilityCss

/-- Entries are newest first, and the newest entry of a name counts. -/
structure ApplyIndex where
  entries : List (Text × Text)

namespace ApplyIndex

def get? (index : ApplyIndex) (name : Text) : Option Text :=
  index.entries.lookup name

def size (index : ApplyIndex) : Nat :=
  (index.entries.map (·.1)).eraseDups.length

/-- The declarations of all names in order, or the first name without an entry. -/
def apply (index : ApplyIndex) (names : List Text) : Except Text Text := do
  let bodies ← names.mapM fun name =>
    match index.get? name with
    | some body => .ok body
    | none => .error name
  return bodies.flatten

/-- The index while it is built, with the at-rule blocks that are open and the entry under way. Its
declarations are newest first. -/
structure Builder where
  index : ApplyIndex
  depth : Nat
  entry : Option (Text × List Text)

namespace Builder

def start : Builder :=
  ⟨⟨[]⟩, 0, none⟩

def className? (selector : List Token) : Option Text :=
  match Token.trimWhitespace selector with
  | [⟨.delim, ['.']⟩, ⟨.ident, name⟩] => if name.isEmpty then none else some name
  | _ => none

def openEntry (b : Builder) (name : Text) : Except InternalFault Builder :=
  match b.entry with
  | some (opened, _) => .error (.nestedEntry name opened)
  | none => .ok { b with entry := some (name, []) }

def closeEntry (b : Builder) : Builder :=
  match b.entry with
  | some (name, body) =>
    { b with
      index := ⟨(name, Text.trim body.reverse.flatten) :: b.index.entries⟩
      entry := none }
  | none => b

def declare (b : Builder) (event : Event) : Builder :=
  { b with entry := b.entry.map fun (name, body) => (name, event.written :: body) }

def event (b : Builder) (e : Event) : Except InternalFault Builder :=
  match e with
  | .beginAtRule _ _ => .ok { b with depth := b.depth + 1 }
  | .endAtRule => .ok { b with depth := b.depth - 1 }
  | .beginRuleset selector =>
    match className? selector with
    | some name => if b.depth = 0 then b.openEntry name else .ok b
    | none => .ok b
  | .endRuleset => .ok (if b.depth = 0 then b.closeEntry else b)
  | .declaration _ _ | .customProperty _ _ => .ok (if b.depth = 0 then b.declare e else b)
  | .atRule _ _ | .selectorGroup _ | .marker _ | .comment _ => .ok b

end Builder

def ofEvents (events : List Event) : Except InternalFault ApplyIndex := do
  return (← events.foldlM Builder.event .start).index

def ofStyles (source : String) (css : Text) : Except ConvertError ApplyIndex :=
  let reading := Reading.ofText css false
  match ofEvents reading.events, reading.error with
  | .error fault, _ => .error (.internal source fault)
  | .ok _, some error => .error (.syntaxError source error)
  | .ok index, none => .ok index

/-- The index of the utilities as they read once the output has taken the given pieces. -/
def ofDistribution (dist : Distribution) (sent : List Text) : Except ConvertError ApplyIndex :=
  let part := Section.utilities
  match dist.read part sent with
  | .error error => .error (.distribution part.sourceName part error)
  | .ok css => ofStyles part.sourceName css

end ApplyIndex

end UtilityCss
