import UtilityCss.Text.Quoted

/-!
Stylesheet tokens: a kind together with the exact text it was read from. Besides the kinds that
reading produces there is one for the raw value of a custom property, which no source text has as
a token of its own.
-/
namespace UtilityCss

inductive Kind where
  | whitespace | comment | ident | function | atKeyword | hash | string | url
  | number | percentage | dimension | cdo | cdc
  | colon | semicolon | comma
  | leftBracket | rightBracket | leftParen | rightParen | leftBrace | rightBrace
  | delim | customPropertyValue
  deriving DecidableEq, Repr

namespace Kind

def label : Kind → String
  | whitespace => "Whitespace"
  | comment => "Comment"
  | ident => "Ident"
  | function => "Function"
  | atKeyword => "AtKeyword"
  | hash => "Hash"
  | string => "String"
  | url => "Url"
  | number => "Number"
  | percentage => "Percentage"
  | dimension => "Dimension"
  | cdo => "Cdo"
  | cdc => "Cdc"
  | colon => "Colon"
  | semicolon => "Semicolon"
  | comma => "Comma"
  | leftBracket => "LeftBracket"
  | rightBracket => "RightBracket"
  | leftParen => "LeftParen"
  | rightParen => "RightParen"
  | leftBrace => "LeftBrace"
  | rightBrace => "RightBrace"
  | delim => "Delim"
  | customPropertyValue => "CustomPropertyValue"

/-- White space and comments mean nothing between other tokens. -/
def isTrivia : Kind → Bool
  | whitespace | comment => true
  | _ => false

/-- A group that is open hides semicolons, commas and braces. -/
def opensGroup : Kind → Bool
  | function | leftParen | leftBracket | leftBrace => true
  | _ => false

def closesGroup : Kind → Bool
  | rightParen | rightBracket | rightBrace => true
  | _ => false

/-- How many groups are open after a token of this kind; a stray closer leaves none open. -/
def nesting (kind : Kind) (depth : Nat) : Nat :=
  if kind.opensGroup then depth + 1 else if kind.closesGroup then depth - 1 else depth

end Kind

structure Token where
  kind : Kind
  text : Text
  deriving DecidableEq, Repr

namespace Token

def isWhitespace (token : Token) : Bool :=
  token.kind == .whitespace

def display (token : Token) : String :=
  token.kind.label ++ "(" ++ String.ofList (Text.quoted token.text) ++ ")"

def displayAll (tokens : List Token) : String :=
  "[" ++ ", ".intercalate (tokens.map display) ++ "]"

/-- The text the tokens were read from. -/
def source (tokens : List Token) : Text :=
  tokens.flatMap text

/-- A token with the octets it takes up, from `start` up to `stop`. -/
structure Spanned where
  token : Token
  start : Nat
  stop : Nat
  deriving DecidableEq, Repr

def spansFrom (found : List Spanned) (start : Nat) : List Token → List Spanned
  | [] => found.reverse
  | token :: rest =>
    let stop := start + token.text.size
    spansFrom (⟨token, start, stop⟩ :: found) stop rest

/-- Where the tokens lie in the text they were read from. -/
def spans (tokens : List Token) : List Spanned :=
  spansFrom [] 0 tokens

def trimWhitespace (tokens : List Token) : List Token :=
  ((tokens.dropWhile isWhitespace).reverse.dropWhile isWhitespace).reverse

end Token

end UtilityCss
