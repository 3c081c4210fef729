import UtilityCss.Event.Parser

/-!
Well-nested event words, said twice. `Content` is a grammar of what a block holds, with every block
closed where it was opened and every selector list in one piece. `Nested` follows a word event by
event with the blocks that are open, which also describes a word that breaks off. A nested word
becomes content once the blocks it leaves open are closed.
-/
namespace UtilityCss
open UtilityCss.Parser

/-- What a block holds, or the top of a stylesheet where no block is given. -/
inductive Content (inline : Bool) : Option Block → List Event → Prop
  | nil {place} : Content inline place []
  | atRule {place name values rest} :
      Content inline place rest → Content inline place (.atRule name values :: rest)
  | marker {place text rest} :
      Content inline place rest → Content inline place (.marker text :: rest)
  | comment {place text rest} :
      Content inline place rest → Content inline place (.comment text :: rest)
  | declaration {place name values rest} :
      (place = none → inline = true) →
      Content inline place rest → Content inline place (.declaration name values :: rest)
  | customProperty {place name raw rest} :
      (place = none → inline = true) →
      Content inline place rest → Content inline place (.customProperty name raw :: rest)
  | atBlock {place name values inner rest} :
      Content inline (some .atRule) inner → Content inline place rest →
      Content inline place (.beginAtRule name values :: inner ++ .endAtRule :: rest)
  | ruleset {place selector inner rest} (groups : List (List Token)) :
      place ≠ some .ruleset → (place = none → inline = false) →
      Content inline (some .ruleset) inner → Content inline place rest →
      Content inline place
        (groups.map .selectorGroup ++ .beginRuleset selector :: inner ++ .endRuleset :: rest)

/-- The word of a whole stylesheet, or of a list of declarations where the source is inline. -/
def WellNested (inline : Bool) (events : List Event) : Prop :=
  Content inline none events

namespace Event

def isGroup : Event → Bool
  | selectorGroup _ => true
  | _ => false

def isDeclared : Event → Bool
  | declaration _ _ | customProperty _ _ => true
  | _ => false

def startsSelector : List Event → Bool
  | selectorGroup _ :: _ | beginRuleset _ :: _ => true
  | _ => false

/-- The blocks that are open after an event, innermost first. -/
@[simp] def blocksAfter : Event → List Block → List Block
  | beginAtRule _ _, blocks => .atRule :: blocks
  | beginRuleset _, blocks => .ruleset :: blocks
  | endAtRule, blocks | endRuleset, blocks => blocks.tail
  | _, blocks => blocks

/-- Whether an event may come where the given block is innermost. -/
def Fits (inline : Bool) (place : Option Block) : Event → Prop
  | declaration _ _ | customProperty _ _ => place = none → inline = true
  | selectorGroup _ | beginRuleset _ => place ≠ some .ruleset ∧ (place = none → inline = false)
  | endAtRule => place = some .atRule
  | endRuleset => place = some .ruleset
  | _ => True

theorem blocksAfter_of_isDeclared {e : Event} (h : e.isDeclared = true) (blocks : List Block) :
    e.blocksAfter blocks = blocks := by
  cases e <;> first | rfl | cases h

theorem fits_of_isDeclared {inline : Bool} {place : Option Block} {e : Event}
    (h : e.isDeclared = true) (fits : e.Fits inline place) : place = none → inline = true := by
  cases e <;> first | exact fits | cases h

end Event

/-- A word that leads from open blocks to open blocks, innermost first. -/
inductive Nested (inline : Bool) : List Block → List Event → List Block → Prop
  | nil {blocks} : Nested inline blocks [] blocks
  | cons {blocks e rest after} :
      e.Fits inline blocks.head? → (e.isGroup = true → Event.startsSelector rest = true) →
      Nested inline (e.blocksAfter blocks) rest after → Nested inline blocks (e :: rest) after

theorem nested_cons_iff {inline : Bool} {blocks after : List Block} {e : Event}
    {rest : List Event} :
    Nested inline blocks (e :: rest) after ↔
      e.Fits inline blocks.head? ∧ (e.isGroup = true → Event.startsSelector rest = true) ∧
        Nested inline (e.blocksAfter blocks) rest after := by
  constructor
  · intro h
    cases h with
    | cons fits groups h => exact ⟨fits, groups, h⟩
  · intro ⟨fits, groups, h⟩
    exact .cons fits groups h

theorem startsSelector_append {events more : List Event}
    (h : Event.startsSelector events = true) : Event.startsSelector (events ++ more) = true := by
  cases events with
  | nil => cases h
  | cons e rest => cases e <;> first | rfl | cases h

theorem Nested.append {inline : Bool} {blocks middle after : List Block}
    {events more : List Event} (h : Nested inline blocks events middle)
    (k : Nested inline middle more after) : Nested inline blocks (events ++ more) after := by
  induction h with
  | nil => exact k
  | cons fits groups _ ih =>
      exact .cons fits (fun g => startsSelector_append (groups g)) (ih k)

theorem Nested.single {inline : Bool} {blocks : List Block} {e : Event}
    (fits : e.Fits inline blocks.head?) (h : e.isGroup = false) :
    Nested inline blocks [e] (e.blocksAfter blocks) :=
  .cons fits (by simp [h]) .nil

/-- What is missing after a word that leaves blocks open: their content up to the end of each, and
then content of the top. -/
def Closes (inline : Bool) : List Block → List Event → Prop
  | [], events => Content inline none events
  | block :: blocks, events =>
      ∃ inner after, events = inner ++ block.ended :: after ∧
        Content inline (some block) inner ∧ Closes inline blocks after

theorem closes_ended (inline : Bool) (blocks : List Block) :
    Closes inline blocks (blocks.map Block.ended) := by
  induction blocks with
  | nil => exact .nil
  | cons block blocks ih => exact ⟨[], _, rfl, .nil, ih⟩

theorem Closes.prepend {inline : Bool} {blocks : List Block} {e : Event} {events : List Event}
    (h : ∀ inner, Content inline blocks.head? inner → Content inline blocks.head? (e :: inner))
    (k : Closes inline blocks events) : Closes inline blocks (e :: events) := by
  cases blocks with
  | nil => exact h events k
  | cons block blocks =>
      obtain ⟨inner, after, rfl, content, rest⟩ := k
      exact ⟨e :: inner, after, rfl, h inner content, rest⟩

theorem Content.group {inline : Bool} {place : Option Block} {selector : List Token}
    {events : List Event} (h : Event.startsSelector events = true)
    (k : Content inline place events) :
    Content inline place (.selectorGroup selector :: events) := by
  cases k with
  | nil | atRule _ | marker _ | comment _ | declaration _ _ | customProperty _ _ | atBlock _ _ =>
      cases h
  | ruleset groups hplace htop inner rest =>
      exact .ruleset (selector :: groups) hplace htop inner rest

theorem Closes.group {inline : Bool} {blocks : List Block} {selector : List Token}
    {events : List Event} (h : Event.startsSelector events = true)
    (k : Closes inline blocks events) :
    Closes inline blocks (.selectorGroup selector :: events) := by
  cases blocks with
  | nil => exact Content.group h k
  | cons block blocks =>
      obtain ⟨inner, after, rfl, content, rest⟩ := k
      refine ⟨.selectorGroup selector :: inner, after, rfl, ?_, rest⟩
      -- An empty content would leave the end of the block where the selector list goes on.
      cases inner with
      | nil => cases block <;> cases h
      | cons e inner => exact Content.group (by cases e <;> first | rfl | cases h) content

theorem Closes.opened {inline : Bool} {block : Block} {blocks : List Block} {opening : Event}
    {events : List Event}
    (h : ∀ inner rest, Content inline (some block) inner → Content inline blocks.head? rest →
      Content inline blocks.head? (opening :: inner ++ block.ended :: rest))
    (k : Closes inline (block :: blocks) events) : Closes inline blocks (opening :: events) := by
  obtain ⟨inner, after, rfl, content, outer⟩ := k
  cases blocks with
  | nil => exact h inner after content outer
  | cons around blocks =>
      obtain ⟨rest, after, rfl, contentAround, outer⟩ := outer
      refine ⟨opening :: inner ++ block.ended :: rest, after, by simp, ?_, outer⟩
      exact h inner rest content contentAround

theorem Nested.closes {inline : Bool} {blocks after : List Block} {events more : List Event}
    (h : Nested inline blocks events after) (k : Closes inline after more) :
    Closes inline blocks (events ++ more) := by
  induction h with
  | nil => exact k
  | @cons blocks e rest after fits groups _ ih =>
      have tail := ih k
      cases e with
      | atRule name values => exact tail.prepend fun _ hc => .atRule hc
      | marker text => exact tail.prepend fun _ hc => .marker hc
      | comment text => exact tail.prepend fun _ hc => .comment hc
      | declaration name values => exact tail.prepend fun _ hc => .declaration fits hc
      | customProperty name raw => exact tail.prepend fun _ hc => .customProperty fits hc
      | beginAtRule name values => exact tail.opened fun _ _ hi hr => .atBlock hi hr
      | beginRuleset selector =>
          exact tail.opened fun _ _ hi hr => .ruleset [] fits.1 fits.2 hi hr
      | selectorGroup selector => exact tail.group (startsSelector_append (groups rfl))
      | endAtRule | endRuleset =>
          cases blocks with
          | nil => cases fits
          | cons block blocks =>
              cases fits
              exact ⟨[], _, rfl, .nil, tail⟩

/-- A word that starts at the top is well nested once its open blocks are closed. -/
theorem Nested.wellNested {inline : Bool} {blocks : List Block} {events : List Event}
    (h : Nested inline [] events blocks) :
    WellNested inline (events ++ blocks.map Block.ended) :=
  h.closes (closes_ended inline blocks)

end UtilityCss
