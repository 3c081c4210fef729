import UtilityCss.Event.Error
import UtilityCss.Event.Item
import UtilityCss.Token.Lexer

/-!
Reading tokens as events. What an item is depends on the innermost open block: a ruleset holds
declarations, the top of a stylesheet holds rulesets, and an at-rule block holds whichever the next
semicolon or brace decides. An inline source is a list of declarations at its top. At-rules may
stand anywhere. Blocks that are open where the source ends are closed there.

Every step hands out at least one event and leaves fewer tokens and open blocks together, so
reading ends.
-/
namespace UtilityCss.Parser

inductive Block where
  | atRule
  | ruleset
  deriving DecidableEq, Repr

def Block.ended : Block → Event
  | atRule => .endAtRule
  | ruleset => .endRuleset

structure State where
  rest : List Token
  blocks : List Block

inductive Step where
  | done
  | stuck (fault : SyntaxFault) (rest : List Token)
  | yield (events : List Event) (next : State)

def skipTrivial (semicolons : Bool) (tokens : List Token) : List Token :=
  tokens.dropWhile fun token => token.isWhitespace || (semicolons && token.kind == .semicolon)

/-- Whether the innermost block holds nothing but declarations and at-rules. -/
def onlyDeclarations (inline : Bool) : List Block → Bool
  | .ruleset :: _ => true
  | .atRule :: _ => false
  | [] => inline

/-- Whether the item that begins here is read as a declaration. -/
def isDeclaration (inline : Bool) (blocks : List Block) (tokens : List Token) : Bool :=
  match blocks with
  | .atRule :: _ => (Item.scan tokens).stop != .leftBrace
  | _ => onlyDeclarations inline blocks

def atRule (name : Token) (rest : List Token) (blocks : List Block) : Step :=
  let item := Item.scan rest
  let values := atRuleValues item.tokens
  match item.stop with
  | .leftBrace => .yield [.beginAtRule name.text values] ⟨item.rest.drop 1, .atRule :: blocks⟩
  | .semicolon => .yield [.atRule name.text values] ⟨item.rest.drop 1, blocks⟩
  | .rightBrace | .ending => .yield [.atRule name.text values] ⟨item.rest, blocks⟩

def prelude (tokens : List Token) (blocks : List Block) : Step :=
  let item := Item.scan tokens
  if item.stop ≠ .leftBrace then .stuck .missingBlock item.rest
  else
    let groups := (splitGroups item.tokens).map trimmedValues
    if groups.any (·.isEmpty) then .stuck .emptySelector tokens
    else .yield (selectorEvents groups) ⟨item.rest.drop 1, .ruleset :: blocks⟩

def isCustomName (name : Token) : Bool :=
  name.kind == .ident && ['-', '-'].isPrefixOf name.text

def declarationEvent (name : Token) (tokens : List Token) : Event :=
  if isCustomName name then .customProperty name.text (Text.trimEnd (Token.source tokens))
  else .declaration name.text (trimmedValues tokens)

def declaration (name : Token) (rest : List Token) (blocks : List Block) : Step :=
  match skipTrivial false rest with
  | ⟨.colon, _⟩ :: rest =>
    let item := Item.scan rest
    match item.stop with
    | .leftBrace => .stuck .blockInDeclaration item.rest
    | .semicolon => .yield [declarationEvent name item.tokens] ⟨item.rest.drop 1, blocks⟩
    | .rightBrace | .ending => .yield [declarationEvent name item.tokens] ⟨item.rest, blocks⟩
  | rest => .stuck .missingColon rest

def closeBlock (brace : Token) (rest : List Token) : List Block → Step
  | [] => .stuck .unexpectedCloseBrace (brace :: rest)
  | block :: blocks => .yield [block.ended] ⟨rest, blocks⟩

def itemStep (inline : Bool) (token : Token) (rest : List Token) (blocks : List Block) : Step :=
  match token.kind with
  | .comment => .yield [.comment token.text] ⟨rest, blocks⟩
  | .cdo | .cdc => .yield [.marker token.text] ⟨rest, blocks⟩
  | .rightBrace => closeBlock token rest blocks
  | .atKeyword => atRule token rest blocks
  | _ =>
    if isDeclaration inline blocks (token :: rest) then declaration token rest blocks
    else prelude (token :: rest) blocks

def closeAll : List Block → Step
  | [] => .done
  | block :: blocks => .yield [block.ended] ⟨[], blocks⟩

def step (inline : Bool) (s : State) : Step :=
  match skipTrivial (onlyDeclarations inline s.blocks) s.rest with
  | [] => closeAll s.blocks
  | token :: rest => itemStep inline token rest s.blocks

def State.size (s : State) : Nat :=
  s.rest.length + s.blocks.length

theorem atRule_size {name : Token} {rest : List Token} {blocks : List Block} {events : List Event}
    {next : State} (h : atRule name rest blocks = .yield events next) :
    next.size < rest.length + 1 + blocks.length := by
  have hlen := Item.scan_length rest
  have hrest := @Item.scan_rest rest
  simp only [atRule] at h
  split at h
  all_goals
    cases h
    simp_all [State.size]
    try omega

theorem prelude_size {tokens : List Token} {blocks : List Block} {events : List Event}
    {next : State} (h : prelude tokens blocks = .yield events next) :
    next.size < tokens.length + blocks.length := by
  have hlen := Item.scan_length tokens
  simp only [prelude] at h
  split at h
  · cases h
  · split at h
    · cases h
    · next hstop hgroups =>
      have hrest := @Item.scan_rest tokens (by simp_all)
      have htokens := @Item.tokens_ne_nil tokens (by simpa using hgroups)
      cases h
      simp only [State.size, List.length_drop, List.length_cons]
      omega

theorem length_skipTrivial (semicolons : Bool) (tokens : List Token) :
    (skipTrivial semicolons tokens).length ≤ tokens.length :=
  (List.dropWhile_sublist _).length_le

theorem declaration_size {name : Token} {rest : List Token} {blocks : List Block}
    {events : List Event} {next : State} (h : declaration name rest blocks = .yield events next) :
    next.size < rest.length + 1 + blocks.length := by
  have hskip := length_skipTrivial false rest
  simp only [declaration] at h
  split at h
  · next tail htail =>
    have hlen := Item.scan_length tail
    simp only [htail, List.length_cons] at hskip
    split at h
    · cases h
    all_goals
      cases h
      simp only [State.size, List.length_drop]
      omega
  · cases h

theorem closeBlock_size {brace : Token} {rest : List Token} {blocks : List Block}
    {events : List Event} {next : State} (h : closeBlock brace rest blocks = .yield events next) :
    next.size < rest.length + 1 + blocks.length := by
  cases blocks with
  | nil => cases h
  | cons block blocks =>
    cases h
    simp only [State.size, List.length_cons]
    omega

theorem itemStep_size {inline : Bool} {token : Token} {rest : List Token} {blocks : List Block}
    {events : List Event} {next : State}
    (h : itemStep inline token rest blocks = .yield events next) :
    next.size < rest.length + 1 + blocks.length := by
  simp only [itemStep] at h
  split at h
  case h_1 | h_2 | h_3 =>
    cases h
    simp only [State.size]
    omega
  case h_4 => exact closeBlock_size h
  case h_5 => exact atRule_size h
  case h_6 =>
    split at h
    · exact declaration_size h
    · exact prelude_size h

theorem closeAll_size {blocks : List Block} {events : List Event} {next : State}
    (h : closeAll blocks = .yield events next) : next.size < blocks.length := by
  cases blocks with
  | nil => cases h
  | cons block blocks =>
    cases h
    simp [State.size]

theorem step_size {inline : Bool} {s : State} {events : List Event} {next : State}
    (h : step inline s = .yield events next) : next.size < s.size := by
  have hskip := length_skipTrivial (onlyDeclarations inline s.blocks) s.rest
  simp only [step] at h
  split at h
  · have := closeAll_size h
    simp only [State.size] at this ⊢
    omega
  · next hs =>
    rw [hs, List.length_cons] at hskip
    have := itemStep_size h
    simp only [State.size] at this ⊢
    omega

/-- Events handed out so far are newest first. -/
def run (inline : Bool) (found : List Event) (s : State) :
    List Event × Option (SyntaxFault × List Token) :=
  match _h : step inline s with
  | .done => (found.reverse, none)
  | .stuck fault rest => (found.reverse, some (fault, rest))
  | .yield events next => run inline (events.reverse ++ found) next
termination_by s.size
decreasing_by exact step_size (by assumption)

end Parser

/-- What a source reads as: its events up to its end or to the first error. -/
structure Reading where
  events : List Event
  error : Option SyntaxError

def Reading.ofText (source : Text) (inline : Bool) : Reading :=
  match Lexer.tokens source with
  | .error unread => ⟨[], some (.before source unread .unterminatedString)⟩
  | .ok tokens =>
    let (events, stuck) := Parser.run inline [] ⟨tokens, []⟩
    ⟨events, stuck.map fun (fault, rest) => .before source (Token.source rest) fault⟩

end UtilityCss
