import UtilityCss.Event.Basic

/-!
Items: runs of tokens up to a semicolon or brace outside all groups. Their tokens become values or
selector groups.

Values lose their comments, and of the white space on the two sides of a comment one token stays.
An at-rule keeps white space in front of its values, all other values are trimmed on both sides.
-/
namespace UtilityCss.Parser

/-- What comes after an item. -/
inductive Stop where
  | semicolon
  | leftBrace
  | rightBrace
  | ending
  deriving DecidableEq, Repr

def Stop.ofKind? : Kind → Option Stop
  | .semicolon => some .semicolon
  | .leftBrace => some .leftBrace
  | .rightBrace => some .rightBrace
  | _ => none

/-- An item up to the first semicolon or brace outside all groups, and the tokens from there on. -/
structure Item where
  tokens : List Token
  stop : Stop
  rest : List Token

namespace Item

def scanFrom (depth : Nat) (found : List Token) : List Token → Item
  | [] => ⟨found.reverse, .ending, []⟩
  | token :: rest =>
    match if depth = 0 then Stop.ofKind? token.kind else none with
    | some stop => ⟨found.reverse, stop, token :: rest⟩
    | none => scanFrom (token.kind.nesting depth) (token :: found) rest

def scan (tokens : List Token) : Item :=
  scanFrom 0 [] tokens

end Item

/-- Adds a token to values kept newest first. -/
def addValue (found : List Token) (token : Token) : List Token :=
  if token.kind = .comment then found
  else if token.isWhitespace && (found.head?.map (·.isWhitespace)).getD false then found
  else token :: found

def values (tokens : List Token) : List Token :=
  (tokens.foldl addValue []).reverse

def atRuleValues (tokens : List Token) : List Token :=
  ((tokens.foldl addValue []).dropWhile (·.isWhitespace)).reverse

def trimmedValues (tokens : List Token) : List Token :=
  Token.trimWhitespace (values tokens)

/-- Splits at the commas outside all groups; the tokens of the current part are newest first. -/
def splitGroupsFrom (depth : Nat) (part : List Token) (found : List (List Token)) :
    List Token → List (List Token)
  | [] => (part.reverse :: found).reverse
  | token :: rest =>
    if depth = 0 ∧ token.kind = .comma then splitGroupsFrom depth [] (part.reverse :: found) rest
    else splitGroupsFrom (token.kind.nesting depth) (token :: part) found rest

def splitGroups (tokens : List Token) : List (List Token) :=
  splitGroupsFrom 0 [] [] tokens

/-- The events of a selector list, all but the last group as groups. -/
def selectorEvents : List (List Token) → List Event
  | [] => []
  | [last] => [.beginRuleset last]
  | group :: rest => .selectorGroup group :: selectorEvents rest

theorem Item.scanFrom_length (depth : Nat) (found tokens : List Token) :
    (scanFrom depth found tokens).tokens.length + (scanFrom depth found tokens).rest.length =
      found.length + tokens.length := by
  induction tokens generalizing depth found with
  | nil => simp [scanFrom]
  | cons token rest ih =>
    simp only [scanFrom]
    split
    · simp
    · simp only [ih, List.length_cons]
      omega

theorem Item.scan_length (tokens : List Token) :
    (scan tokens).tokens.length + (scan tokens).rest.length = tokens.length := by
  simpa [scan] using scanFrom_length 0 [] tokens

theorem Item.scanFrom_rest (depth : Nat) (found tokens : List Token) :
    (scanFrom depth found tokens).stop = .ending ∨
      0 < (scanFrom depth found tokens).rest.length := by
  induction tokens generalizing depth found with
  | nil => simp [scanFrom]
  | cons token rest ih =>
    simp only [scanFrom]
    split
    · simp
    · exact ih _ _

theorem Item.scan_rest {tokens : List Token} (h : (scan tokens).stop ≠ .ending) :
    0 < (scan tokens).rest.length :=
  (scanFrom_rest 0 [] tokens).resolve_left h

/-- A selector list that is not empty everywhere consumes a token besides its brace. -/
theorem Item.tokens_ne_nil {tokens : List Token}
    (h : ((splitGroups (scan tokens).tokens).map trimmedValues).any (·.isEmpty) = false) :
    0 < (scan tokens).tokens.length := by
  cases ht : (scan tokens).tokens with
  | nil => simp [ht, splitGroups, splitGroupsFrom, trimmedValues, values, Token.trimWhitespace] at h
  | cons _ _ => simp

end UtilityCss.Parser
