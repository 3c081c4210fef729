import Mathlib.Data.List.Chain
import UtilityCss.Proofs.Event.Tokens

/-!
Stylesheets as trees, with the events a tree stands for and the tokens it is written as. A tree is
well formed where its blocks hold what they may hold, its values and selectors keep their groups
balanced and have no white space that reading would take away.
-/
namespace UtilityCss
open UtilityCss.Parser UtilityCss.Token

/-- What a block or the top of a stylesheet holds: nothing, or an item in front of others. -/
inductive Styles where
  | nil
  | statement (name : Text) (values : List Token) (others : Styles)
  | block (name : Text) (values : List Token) (body others : Styles)
  | ruleset (groups : List (List Token)) (last : List Token) (body others : Styles)
  | declaration (name : Text) (values : List Token) (others : Styles)
  | customProperty (name raw : Text) (others : Styles)

/-- Values that are read as they are written. The kinds are those that end them or part them where
no group is open. -/
structure Settled (barred : Kind → Bool) (tokens : List Token) : Prop where
  comments : ∀ token ∈ tokens, token.kind ≠ .comment
  spaces : tokens.IsChain fun left right => left.isWhitespace = false ∨ right.isWhitespace = false
  clear : Clear barred 0 tokens
  closed : depthAfter 0 tokens = 0

/-- What may not stand outside of all groups: semicolons, braces, and anything that closes a group
that is not open. -/
def endsValues (kind : Kind) : Bool :=
  isStop kind || kind.closesGroup

def endsSelector (kind : Kind) : Bool :=
  endsValues kind || kind == .comma

def StartsSolid (tokens : List Token) : Prop :=
  ∀ token ∈ tokens.head?, token.isWhitespace = false

def EndsSolid (tokens : List Token) : Prop :=
  ∀ token ∈ tokens.getLast?, token.isWhitespace = false

structure IsSelector (tokens : List Token) : Prop where
  settled : Settled endsSelector tokens
  starts : StartsSolid tokens
  ends : EndsSolid tokens
  filled : tokens ≠ []

instance (barred : Kind → Bool) (tokens : List Token) : Decidable (Settled barred tokens) :=
  decidable_of_iff
    ((∀ token ∈ tokens, token.kind ≠ .comment) ∧
      (tokens.IsChain fun left right => left.isWhitespace = false ∨ right.isWhitespace = false) ∧
      Clear barred 0 tokens ∧ depthAfter 0 tokens = 0)
    ⟨fun ⟨h₁, h₂, h₃, h₄⟩ => ⟨h₁, h₂, h₃, h₄⟩, fun ⟨h₁, h₂, h₃, h₄⟩ => ⟨h₁, h₂, h₃, h₄⟩⟩

instance (tokens : List Token) : Decidable (StartsSolid tokens) :=
  inferInstanceAs (Decidable (∀ token ∈ tokens.head?, token.isWhitespace = false))

instance (tokens : List Token) : Decidable (EndsSolid tokens) :=
  inferInstanceAs (Decidable (∀ token ∈ tokens.getLast?, token.isWhitespace = false))

instance (tokens : List Token) : Decidable (IsSelector tokens) :=
  decidable_of_iff
    (Settled endsSelector tokens ∧ StartsSolid tokens ∧ EndsSolid tokens ∧ tokens ≠ [])
    ⟨fun ⟨h₁, h₂, h₃, h₄⟩ => ⟨h₁, h₂, h₃, h₄⟩, fun ⟨h₁, h₂, h₃, h₄⟩ => ⟨h₁, h₂, h₃, h₄⟩⟩

namespace Styles

def events : Styles → List Event
  | nil => []
  | statement name values others => .atRule name values :: others.events
  | block name values body others =>
    .beginAtRule name values :: body.events ++ .endAtRule :: others.events
  | ruleset groups last body others =>
    groups.map .selectorGroup ++ .beginRuleset last :: body.events ++ .endRuleset :: others.events
  | declaration name values others => .declaration name values :: others.events
  | customProperty name raw others => .customProperty name raw :: others.events

def tokens : Styles → List Token
  | nil => []
  | statement name values others => ⟨.atKeyword, name⟩ :: values ++ semicolon :: others.tokens
  | block name values body others =>
    ⟨.atKeyword, name⟩ :: values ++ leftBrace :: body.tokens ++ rightBrace :: others.tokens
  | ruleset groups last body others =>
    commaJoined (groups ++ [last]) ++ leftBrace :: body.tokens ++ rightBrace :: others.tokens
  | declaration name values others =>
    ⟨.ident, name⟩ :: colon :: values ++ semicolon :: others.tokens
  | customProperty name raw others =>
    ⟨.ident, name⟩ :: colon :: Lexer.rawTokens raw ++ semicolon :: others.tokens

/-- The text that the events of a tree are written as. -/
def text (styles : Styles) : Text :=
  styles.events.flatMap Event.written

/-- Trees that a block of the given kind may hold, or the top of a stylesheet where there is none.
The top of an inline source holds what a ruleset holds. -/
def WellFormed (inline : Bool) : Option Block → Styles → Prop
  | _, nil => True
  | place, statement _ values others =>
    Settled endsValues values ∧ EndsSolid values ∧ others.WellFormed inline place
  | place, block _ values body others =>
    Settled endsValues values ∧ EndsSolid values ∧ body.WellFormed inline (some .atRule) ∧
      others.WellFormed inline place
  | place, ruleset groups last body others =>
    (place ≠ some .ruleset ∧ (place = none → inline = false)) ∧
      (∀ group ∈ groups ++ [last], IsSelector group) ∧
      (∀ token ∈ (commaJoined (groups ++ [last])).head?,
        token.kind ≠ .atKeyword ∧ token.kind ≠ .cdo ∧ token.kind ≠ .cdc) ∧
      body.WellFormed inline (some .ruleset) ∧ others.WellFormed inline place
  | place, declaration name values others =>
    (place = none → inline = true) ∧ ['-', '-'].isPrefixOf name = false ∧
      Settled endsValues values ∧ StartsSolid values ∧ EndsSolid values ∧
      others.WellFormed inline place
  | place, customProperty name raw others =>
    (place = none → inline = true) ∧ ['-', '-'].isPrefixOf name = true ∧
      (∃ value, Lexer.tokens raw = .ok value ∧ Clear endsValues 0 value ∧
        depthAfter 0 value = 0) ∧
      (∀ c ∈ raw.getLast?, Text.isBlank c = false) ∧ others.WellFormed inline place

end Styles
end UtilityCss
