import UtilityCss.Apply
import UtilityCss.Convert.Output
import UtilityCss.Purge.Key

/-!
Walking the events of a source into the output. Two at-rules are directives. `@tailwind` names a
section of the distribution, which is walked in its place; `@apply` names utilities, whose
declarations are written in its place. Everything else is written as it was read.

While the utilities are walked, a ruleset whose key the checker gives up is left out with all it
holds, unless it belongs to a longer selector list.

The index of utilities is built when the first `@apply` is reached and kept from then on. Sections
nest at most as deep as a budget allows. Where no section holds itself there are three to nest, so
four walks suffice.
-/
namespace UtilityCss.Convert

structure Settings where
  dist : Distribution
  /-- Whether the rules of a key go. -/
  checker : Option (String → Bool)

/-- How a conversion ends early. A section that holds itself never comes to an end. -/
inductive Halt where
  | error (error : ConvertError)
  | endless
  deriving DecidableEq, Repr

/-- What walks share. -/
structure Progress where
  output : Output
  index : Option ApplyIndex

/-- Where one walk stands: the at-rule blocks that are open, the blocks that are open inside a
purged ruleset, and whether a selector group came last. -/
structure Place where
  depth : Nat
  purged : Nat
  afterGroup : Bool

def Place.start : Place := ⟨0, 0, false⟩

def fail {α : Type} (error : ConvertError) : Except Halt α :=
  .error (.error error)

def write (source : String) (pieces : List Text) (p : Progress) : Except Halt Progress :=
  match p.output.writeAll pieces with
  | .error error => fail (.io source error)
  | .ok output => .ok { p with output }

/-- The section that a directive asks for. -/
def sectionOf (source : String) (values : List Token) : Except Halt Section :=
  match Token.trimWhitespace values with
  | [token] =>
    if token.kind ≠ .ident then fail (.sectionToken source token)
    else match Section.ofName? token.text with
      | some part => .ok part
      | none => fail (.unknownSection source token.text)
  | found => fail (.sectionArity source found)

/-- The names that a directive asks for. -/
def namesOf (source : String) (values : List Token) : Except Halt (List Text) :=
  match (values.filter (!·.kind.isTrivia)).find? (·.kind ≠ .ident) with
  | some token => fail (.applyToken source token)
  | none => .ok ((values.filter (!·.kind.isTrivia)).map (·.text))

def readSection (settings : Settings) (source : String) (part : Section) (p : Progress) :
    Except Halt Text :=
  match settings.dist.read part p.output.sent with
  | .error error => fail (.distribution source part error)
  | .ok css => .ok css

def indexOf (settings : Settings) (p : Progress) : Except Halt ApplyIndex :=
  match p.index with
  | some index => .ok index
  | none =>
    match ApplyIndex.ofDistribution settings.dist p.output.sent with
    | .error error => fail error
    | .ok index => .ok index

def expandApply (settings : Settings) (source : String) (values : List Token) (p : Progress) :
    Except Halt Progress := do
  let names ← namesOf source values
  let index ← indexOf settings p
  match index.apply names with
  | .error name => fail (.unknownApply source name)
  | .ok css => write source [css] { p with index := some index }

def purges (checker : Option (String → Bool)) (selector : List Token) : Bool :=
  match checker, PurgeKey.ofSelector? selector with
  | some purge, some key => purge key
  | _, _ => false

/-- Inside a purged ruleset only the blocks count. -/
def purgedEvent (place : Place) : Event → Place
  | .beginAtRule _ _ | .beginRuleset _ => { place with purged := place.purged + 1 }
  | .endAtRule | .endRuleset => { place with purged := place.purged - 1 }
  | _ => place

def isDirective (name : String) (text : Text) : Bool :=
  name.toList == text

/-- One event of a walk, with the walk of a whole section given. -/
def event (settings : Settings) (source : String) (checker : Option (String → Bool))
    (expand : List Token → Progress → Except Halt Progress) (place : Place) (p : Progress)
    (e : Event) : Except Halt (Place × Progress) :=
  match e with
  | .atRule name values => do
    if isDirective "@tailwind" name then return (place, ← expand values p)
    else if isDirective "@apply" name then return (place, ← expandApply settings source values p)
    else return (place, ← write source e.pieces p)
  | .beginAtRule _ _ => do
    return ({ place with depth := place.depth + 1 }, ← write source e.pieces p)
  | .endAtRule =>
    if place.depth = 0 then fail (.internal source .atRuleClosedAtTop)
    else do return ({ place with depth := place.depth - 1 }, ← write source e.pieces p)
  | .selectorGroup _ => do
    return ({ place with afterGroup := true }, ← write source e.pieces p)
  | .beginRuleset selector =>
    if !place.afterGroup && purges checker selector then
      return ({ place with purged := 1, afterGroup := false }, p)
    else do return ({ place with afterGroup := false }, ← write source e.pieces p)
  | .endRuleset | .declaration _ _ | .customProperty _ _ | .marker _ | .comment _ => do
    return (place, ← write source e.pieces p)

def walkEvent (settings : Settings) (source : String) (checker : Option (String → Bool))
    (expand : List Token → Progress → Except Halt Progress) (state : Place × Progress)
    (e : Event) : Except Halt (Place × Progress) :=
  if 0 < state.1.purged then .ok (purgedEvent state.1 e, state.2)
  else event settings source checker expand state.1 state.2 e

/-- The end of a walk: an error of the source, or a check that the blocks it opened are closed. -/
def finish (source : String) (error : Option SyntaxError) (state : Place × Progress) :
    Except Halt Progress :=
  match error with
  | some error => fail (.syntaxError source error)
  | none =>
    if state.1.depth ≠ 0 then fail (.internal source (.atRulesLeftOpen state.1.depth))
    else .ok state.2

/-- The walk of a section in place of the directive that asks for it. -/
def expandSection (settings : Settings) (source : String)
    (walkSection : Section → Text → Progress → Except Halt Progress) (values : List Token)
    (p : Progress) : Except Halt Progress := do
  let part ← sectionOf source values
  let css ← readSection settings source part p
  walkSection part css p

/-- Purging is for the utilities alone. -/
def sectionChecker (settings : Settings) (part : Section) : Option (String → Bool) :=
  if part = .utilities then settings.checker else none

/-- The walk of one reading, with the walk of a whole section given. -/
def walkReading (settings : Settings) (source : String) (checker : Option (String → Bool))
    (expand : List Token → Progress → Except Halt Progress) (reading : Reading) (p : Progress) :
    Except Halt Progress := do
  finish source reading.error
    (← reading.events.foldlM (walkEvent settings source checker expand) (.start, p))

/-- How the text of a section is taken apart. -/
abbrev SectionReader := Section → Text → Reading

def wholeSection : SectionReader :=
  fun _ css => .ofText css false

/-- Walks one source. The checker is the walk's own, given only for the utilities. -/
def walk (settings : Settings) (read : SectionReader) : Nat → String →
    Option (String → Bool) → Reading → Progress → Except Halt Progress
  | 0, _, _, _, _ => .error .endless
  | budget + 1, source, checker, reading, p =>
    let walkSection (part : Section) (css : Text) : Progress → Except Halt Progress :=
      walk settings read budget part.sourceName (sectionChecker settings part) (read part css)
    walkReading settings source checker (expandSection settings source walkSection) reading p

end UtilityCss.Convert
