import UtilityCss.Token.Basic

/-!
Reading a text as tokens that cover it. At every point the longest token wins; of two kinds that
fit the same text the more specific one does, so `1e5` is a dimension. A character that begins no
token is a delimiter by itself, except for a quotation mark, which has to be closed.

Two readings depart from that rule. `url(` before something that is not an address comes apart
into delimiters, or takes the white space after it along as a name. A mantissa with a lone
exponent letter counts as a number before `+` or a backslash.
-/
namespace UtilityCss.Lexer

def isSpace (c : Char) : Bool :=
  c == ' ' || c == '\t' || c == '\n' || c == '\r' || c == '\x0c'

def isNewline (c : Char) : Bool :=
  c == '\n' || c == '\r' || c == '\x0c'

def isNameStart (c : Char) : Bool :=
  c.isAlpha || c == '_' || 0x80 ≤ c.toNat

def isNameChar (c : Char) : Bool :=
  isNameStart c || c.isDigit || c == '-'

/-- What an address without quotation marks may hold. -/
def isAddressChar (c : Char) : Bool :=
  !(isSpace c || c == '\x22' || c == '\x27' || c == '(' || c == ')' || c == '\\')

def runLength (p : Char → Bool) (text : Text) : Nat :=
  (text.takeWhile p).length

def nameLengthFrom (n : Nat) : Text → Nat
  | '\\' :: c :: rest => if isNewline c then n else nameLengthFrom (n + 2) rest
  | c :: rest => if isNameChar c then nameLengthFrom (n + 1) rest else n
  | [] => n

/-- The length of the run of name characters and escapes that a text begins with. -/
def nameLength (text : Text) : Nat :=
  nameLengthFrom 0 text

def startsName : Text → Bool
  | '\\' :: c :: _ => !isNewline c
  | c :: _ => isNameStart c
  | [] => false

/-- The length of the identifier that a text begins with, zero for none. -/
def identLength : Text → Nat
  | '-' :: '-' :: rest => nameLength rest + 2
  | '-' :: rest => if startsName rest then nameLength rest + 1 else 0
  | text => if startsName text then nameLength text else 0

/-- The length of a string after its opening mark, the closing one included. -/
def stringLengthFrom (mark : Char) (n : Nat) : Text → Option Nat
  | [] => none
  | '\\' :: '\r' :: '\n' :: rest => stringLengthFrom mark (n + 3) rest
  | '\\' :: '\r' :: _ => none
  | '\\' :: _ :: rest => stringLengthFrom mark (n + 2) rest
  | c :: rest =>
    if c = mark then some (n + 1)
    else if c = '\\' || isNewline c then none
    else stringLengthFrom mark (n + 1) rest

/-- The length of a comment after its opening, to its close or to the end of the text. -/
def commentLengthFrom (n : Nat) : Text → Nat
  | '*' :: '/' :: _ => n + 2
  | _ :: rest => commentLengthFrom (n + 1) rest
  | [] => n

def digitsLength (text : Text) : Nat :=
  runLength Char.isDigit text

def unsignedLength (text : Text) : Nat :=
  let whole := digitsLength text
  match text.drop whole with
  | '.' :: rest => if digitsLength rest = 0 then whole else whole + 1 + digitsLength rest
  | _ => whole

def isSign (c : Char) : Bool :=
  c == '+' || c == '-'

/-- The length of a sign, digits and fraction, zero where no digit is found. -/
def mantissaLength : Text → Nat
  | c :: rest =>
    if isSign c then
      if unsignedLength rest = 0 then 0 else unsignedLength rest + 1
    else unsignedLength (c :: rest)
  | [] => 0

def exponentLength : Text → Nat
  | e :: rest =>
    if e = 'e' || e = 'E' then
      match rest with
      | c :: digits =>
        if isSign c then
          if digitsLength digits = 0 then 0 else digitsLength digits + 2
        else if digitsLength rest = 0 then 0 else digitsLength rest + 1
      | [] => 0
    else 0
  | [] => 0

/-- One step of reading, with the number of characters taken beyond the first. -/
inductive Lexeme where
  | token (kind : Kind) (more : Nat)
  | delims (more : Nat)
  | unclosed
  deriving DecidableEq, Repr

def startsPercent : Text → Bool
  | '%' :: _ => true
  | _ => false

def breaksExponent : Text → Bool
  | c :: _ => c == '+' || c == '\\'
  | [] => false

/-- The unit of a mantissa that counts for nothing: one exponent letter before `+` or `\`. -/
def isLoneExponent (unit : Nat) (afterMantissa : Text) : Bool :=
  unit == 1 && (afterMantissa.take 1 == ['e'] || afterMantissa.take 1 == ['E']) &&
    breaksExponent (afterMantissa.drop 1)

/-- The token of a text that begins with a mantissa of the given length. -/
def numeric (mantissa : Nat) (text : Text) : Lexeme :=
  let rest := text.drop mantissa
  let exponent := exponentLength rest
  let unit := identLength rest
  if exponent = 0 then
    if startsPercent rest then .token .percentage mantissa
    else if unit = 0 then .token .number (mantissa - 1)
    else if isLoneExponent unit rest then .token .number (mantissa + unit - 1)
    else .token .dimension (mantissa + unit - 1)
  else
    let rest' := rest.drop exponent
    let unit' := identLength rest'
    if startsPercent rest' then .token .percentage (mantissa + exponent)
    else if unit' = 0 && unit < exponent then .token .number (mantissa + exponent - 1)
    else .token .dimension (mantissa + max unit (exponent + unit') - 1)

def isUrlWord (text : Text) : Bool :=
  text.map Char.toLower == ['u', 'r', 'l']

/-- The token of `url(`, given the text after it. -/
def address (rest : Text) : Lexeme :=
  let before := runLength isSpace rest
  let held := runLength isAddressChar (rest.drop before)
  let after := runLength isSpace (rest.drop (before + held))
  match rest.drop (before + held + after) with
  | ')' :: _ => .token .url (4 + before + held + after)
  | _ =>
    if 0 < held then .delims (3 + before + held + after)
    else if 0 < before then .token .ident (3 + before)
    else .token .function 3

/-- The token of a text that begins with an identifier of the given length. -/
def word (ident : Nat) (text : Text) : Lexeme :=
  match text.drop ident with
  | '(' :: rest =>
    if isUrlWord (text.take ident) then address rest else .token .function ident
  | _ => .token .ident (ident - 1)

def single (kind : Kind) : Lexeme := .token kind 0

def lexeme (c : Char) (rest : Text) : Lexeme :=
  if isSpace c then .token .whitespace (runLength isSpace rest)
  else match c, rest with
    | '/', '*' :: rest => .token .comment (commentLengthFrom 1 rest)
    | '<', '!' :: '-' :: '-' :: _ => .token .cdo 3
    | '-', '-' :: '>' :: _ => .token .cdc 2
    | ':', _ => single .colon
    | ';', _ => single .semicolon
    | ',', _ => single .comma
    | '[', _ => single .leftBracket
    | ']', _ => single .rightBracket
    | '(', _ => single .leftParen
    | ')', _ => single .rightParen
    | '\x7b', _ => single .leftBrace
    | '\x7d', _ => single .rightBrace
    | '@', rest => if identLength rest = 0 then .delims 0 else .token .atKeyword (identLength rest)
    | '#', rest => if nameLength rest = 0 then .delims 0 else .token .hash (nameLength rest)
    | c, rest =>
      if c = '\x22' || c = '\x27' then
        match stringLengthFrom c 0 rest with
        | some n => .token .string n
        | none => .unclosed
      else if mantissaLength (c :: rest) ≠ 0 then numeric (mantissaLength (c :: rest)) (c :: rest)
      else if identLength (c :: rest) ≠ 0 then word (identLength (c :: rest)) (c :: rest)
      else .delims 0

def delim (c : Char) : Token := ⟨.delim, [c]⟩

/-- Tokens read so far are newest first. A string that is never closed leaves the text from its
opening mark on unread. -/
def tokensFrom (found : List Token) : Text → Except Text (List Token)
  | [] => .ok found.reverse
  | c :: rest =>
    match lexeme c rest with
    | .token kind more => tokensFrom (⟨kind, c :: rest.take more⟩ :: found) (rest.drop more)
    | .delims more =>
      tokensFrom ((rest.take more).foldl (fun acc c => delim c :: acc) (delim c :: found))
        (rest.drop more)
    | .unclosed => .error (c :: rest)
termination_by text => text.length

def tokens (text : Text) : Except Text (List Token) :=
  tokensFrom [] text

end UtilityCss.Lexer
