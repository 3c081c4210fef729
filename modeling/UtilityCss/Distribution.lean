import UtilityCss.Source

/-!
A distribution supplies the ready-made styles of three sections, and may know the purge keys of its
utilities in advance.
-/
namespace UtilityCss

inductive Section where
  | base
  | components
  | utilities
  deriving DecidableEq, Repr

namespace Section

def all : List Section :=
  [base, components, utilities]

def name : Section → String
  | base => "base"
  | components => "components"
  | utilities => "utilities"

def ofName? (text : Text) : Option Section :=
  all.find? fun part => part.name.toList = text

def unknownMessage (name : Text) : String :=
  "unknown tailwind section: " ++ String.ofList name

/-- The name that errors inside a section are reported under. -/
def sourceName (part : Section) : String :=
  s!"[tailwind-dist/{part.name}]"

end Section

structure Distribution where
  openSection : Section → Except IoError Source
  purgeKeys : Option (List String)

namespace Distribution

def read (dist : Distribution) (part : Section) (sent : List Text) : Except IoError Text := do
  (← dist.openSection part).text sent

def inMemory (styles : Section → Option Text) (purgeKeys : Option (List String)) :
    Distribution where
  openSection part :=
    match styles part with
    | some text => .ok (.steady (.ofText text))
    | none => .error ⟨.notFound, s!"no {part.name} section in memory dist"⟩
  purgeKeys := purgeKeys

end Distribution

end UtilityCss
