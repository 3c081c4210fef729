import UtilityCss.Distribution
import UtilityCss.Event.Error
import UtilityCss.Token.Basic

/-!
What can end a conversion. Every error that can be tied to a source names it first. Internal
errors stand for broken invariants of the conversion itself and never for bad input.
-/
namespace UtilityCss

inductive InternalFault where
  | nestedEntry (name opened : Text)
  | atRuleClosedAtTop
  | atRulesLeftOpen (count : Nat)
  | workerPanicked
  deriving DecidableEq, Repr

def InternalFault.message : InternalFault → String
  | nestedEntry name opened =>
    "about to start new entry " ++ String.ofList name.quoted ++ " but already in entry " ++
      String.ofList opened.quoted
  | atRuleClosedAtTop => "at-rule closed at depth 0"
  | atRulesLeftOpen count => s!"input ended with {count} at-rule(s) open"
  | workerPanicked => "post-processor panicked"

inductive ConvertError where
  | syntaxError (source : String) (error : SyntaxError)
  | sectionArity (source : String) (found : List Token)
  | sectionToken (source : String) (found : Token)
  | unknownSection (source : String) (name : Text)
  | applyToken (source : String) (found : Token)
  | unknownApply (source : String) (name : Text)
  | distribution (source : String) (part : Section) (error : IoError)
  | io (source : String) (error : IoError)
  | postProcess (error : IoError)
  | internal (source : String) (fault : InternalFault)
  deriving DecidableEq, Repr

namespace ConvertError

def source? : ConvertError → Option String
  | syntaxError source _ | sectionArity source _ | sectionToken source _
  | unknownSection source _ | applyToken source _ | unknownApply source _
  | distribution source _ _ | io source _ | internal source _ => some source
  | postProcess _ => none

def isInternal : ConvertError → Bool
  | internal _ _ => true
  | _ => false

/-- The message after the name of the source. -/
def detail : ConvertError → String
  | syntaxError _ error => error.message
  | sectionArity _ found =>
    "@tailwind should be followed by exactly one token, instead found: " ++ Token.displayAll found
  | sectionToken _ found =>
    "@tailwind should be followed by an identifier token, instead found: " ++ found.display
  | unknownSection _ name => "@tailwind followed by unknown identifier: " ++ String.ofList name
  | applyToken _ found => "unexpected token while looking for ident: " ++ found.display
  | unknownApply _ name => "unknown @apply name: " ++ String.ofList name
  | distribution _ part error =>
    s!"unable to read tailwind dist section {part.name}: {error.message}"
  | io _ error => error.message
  | postProcess error => error.message
  | internal _ fault => "internal error: " ++ fault.message

def message (e : ConvertError) : String :=
  (e.source?.getD "post-processing failed") ++ ": " ++ e.detail

end ConvertError

end UtilityCss
