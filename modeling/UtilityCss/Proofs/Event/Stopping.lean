import UtilityCss.Proofs.Event.Joining
import UtilityCss.Proofs.Token.Covering

/-!
Where reading stops short. The parser gives up in front of the token that it cannot go on with or
behind the last, the lexer where a string begins that is never closed. As a position tells its
offset, the line and column of an error point at that one place of the source.
-/
namespace UtilityCss
open UtilityCss.Token

/-- What stands where the parser finds a fault, if it is not the end of the source. A string that is
never closed is no fault of the parser. -/
def SyntaxFault.FoundAt : SyntaxFault → Option Kind → Prop
  | unterminatedString, _ => False
  | unexpectedCloseBrace, kind => kind = some .rightBrace
  | missingBlock, kind => kind ∈ [some .semicolon, some .rightBrace, none]
  | emptySelector, kind => kind ≠ none
  | missingColon, kind => kind ∉ [some .colon, some .whitespace]
  | blockInDeclaration, kind => kind = some .leftBrace

namespace Parser

/-- The kind of the token that ends an item. -/
def Stop.kind? : Stop → Option Kind
  | semicolon => some .semicolon
  | leftBrace => some .leftBrace
  | rightBrace => some .rightBrace
  | ending => none

theorem Item.kind_of_rest (tokens : List Token) :
    (scan tokens).rest.head?.map (·.kind) = (scan tokens).stop.kind? := by
  obtain ⟨ending, none⟩ | ⟨_, token, more, rest, ends⟩ := (scan_scanned tokens).ended
  · rw [ending, none]
    rfl
  · rw [rest, List.head?_cons, Option.map_some]
    obtain ⟨kind, stop⟩ | ⟨kind, stop⟩ | ⟨kind, stop⟩ := Stop.ofKind?_eq_some ends
    all_goals
      rw [kind, stop]
      rfl

/-- What keeps the next item of unread tokens from being read, where the given blocks are open, and
the tokens from where it shows on. -/
inductive Fails : List Block → List Token → SyntaxFault → List Token → Prop
  | unopened {text rest} :
      Fails [] (⟨.rightBrace, text⟩ :: rest) .unexpectedCloseBrace (⟨.rightBrace, text⟩ :: rest)
  | missingBlock {blocks unread} : (Item.scan unread).stop ≠ .leftBrace →
      Fails blocks unread .missingBlock (Item.scan unread).rest
  | emptySelector {blocks unread} : (Item.scan unread).stop = .leftBrace →
      [] ∈ (splitGroups (Item.scan unread).tokens).map trimmedValues →
      Fails blocks unread .emptySelector unread
  | missingColon {blocks name rest} :
      (∀ token ∈ (skipTrivial false rest).head?, token.kind ≠ .colon) →
      Fails blocks (name :: rest) .missingColon (skipTrivial false rest)
  | blockInDeclaration {blocks name rest colon more} :
      skipTrivial false rest = ⟨.colon, colon⟩ :: more → (Item.scan more).stop = .leftBrace →
      Fails blocks (name :: rest) .blockInDeclaration (Item.scan more).rest

theorem prelude_fails {unread left : List Token} {blocks : List Block} {fault : SyntaxFault}
    (h : prelude unread blocks = .stuck fault left) : Fails blocks unread fault left := by
  simp only [prelude] at h
  split at h
  next stop =>
    cases h
    exact .missingBlock stop
  next stop =>
    split at h
    next empty =>
      cases h
      exact .emptySelector (by simpa using stop) (by simpa using empty)
    · cases h

theorem declaration_fails {name : Token} {rest left : List Token} {blocks : List Block}
    {fault : SyntaxFault} (h : declaration name rest blocks = .stuck fault left) :
    Fails blocks (name :: rest) fault left := by
  simp only [declaration] at h
  split at h
  next colon more found =>
    split at h
    next stop =>
      cases h
      exact .blockInDeclaration found stop
    all_goals cases h
  next other =>
    cases h
    refine .missingColon fun token first colon => ?_
    obtain ⟨more, found⟩ := List.head?_eq_some_iff.mp first
    obtain ⟨kind, text⟩ := token
    subst colon
    exact other text more found

theorem atRule_ne_stuck {name : Token} {rest left : List Token} {blocks : List Block}
    {fault : SyntaxFault} : atRule name rest blocks ≠ .stuck fault left := by
  intro h
  simp only [atRule] at h
  split at h
  all_goals cases h

theorem itemStep_fails {inline : Bool} {token : Token} {rest left : List Token}
    {blocks : List Block} {fault : SyntaxFault}
    (h : itemStep inline token rest blocks = .stuck fault left) :
    Fails blocks (token :: rest) fault left := by
  obtain ⟨kind, text⟩ := token
  simp only [itemStep] at h
  split at h
  case h_1 | h_2 | h_3 => cases h
  case h_4 =>
    cases blocks with
    | nil =>
        cases h
        exact .unopened
    | cons block blocks => cases h
  case h_5 => exact absurd h atRule_ne_stuck
  case h_6 =>
    split at h
    · exact declaration_fails h
    · exact prelude_fails h

theorem step_fails {inline : Bool} {s : State} {fault : SyntaxFault} {left : List Token}
    (h : step inline s = .stuck fault left) : Fails s.blocks (s.unread inline) fault left := by
  rw [step, ← State.unread] at h
  split at h
  · cases blocks : s.blocks with
    | nil => simp [blocks, closeAll] at h
    | cons block more => simp [blocks, closeAll] at h
  next unread =>
    rw [unread]
    exact itemStep_fails h

theorem Fails.left_suffix {blocks : List Block} {unread left : List Token} {fault : SyntaxFault}
    (h : Fails blocks unread fault left) : left <:+ unread := by
  cases h with
  | unopened | emptySelector _ _ => exact List.suffix_refl _
  | missingBlock _ => exact Item.rest_suffix unread
  | missingColon _ => exact (skipTrivial_suffix false _).trans (List.suffix_cons _ _)
  | @blockInDeclaration _ name rest _ more found _ =>
      have colonRead := (suffix_of_skipTrivial found).trans (List.suffix_cons name rest)
      exact (Item.rest_suffix more).trans colonRead

theorem not_whitespace_of_skipTrivial (tokens : List Token) :
    ∀ token ∈ (skipTrivial false tokens).head?, token.kind ≠ .whitespace := by
  intro token first white
  have stops := List.head?_dropWhile_not
    (fun token : Token => token.isWhitespace || (false && token.kind == .semicolon)) tokens
  rw [← skipTrivial, first] at stops
  simp [isWhitespace, white] at stops

theorem Fails.foundAt {blocks : List Block} {unread left : List Token} {fault : SyntaxFault}
    (h : Fails blocks unread fault left) : fault.FoundAt (left.head?.map (·.kind)) := by
  cases h with
  | unopened => rfl
  | missingBlock stop =>
      rw [Item.kind_of_rest]
      cases ends : (Item.scan unread).stop with
      | leftBrace => exact absurd ends stop
      | semicolon | rightBrace | ending => simp [SyntaxFault.FoundAt, Stop.kind?]
  | emptySelector stop _ =>
      cases unread with
      | nil => cases stop
      | cons token rest => exact Option.some_ne_none token.kind
  | @missingColon _ name rest other =>
      have solid := not_whitespace_of_skipTrivial rest
      cases found : skipTrivial false rest with
      | nil => simp [SyntaxFault.FoundAt]
      | cons token more =>
          rw [found] at other solid
          simpa [SyntaxFault.FoundAt] using ⟨other token rfl, solid token rfl⟩
  | blockInDeclaration _ stop =>
      rw [Item.kind_of_rest, stop]
      rfl

/-- A run is stuck in front of the token that its fault is found at, which it has not read. -/
theorem Run.left_found {inline : Bool} {s : State} {events : List Event} {fault : SyntaxFault}
    {left : List Token} (h : Run inline s events (some (fault, left))) :
    left <:+ s.rest ∧ fault.FoundAt (left.head?.map (·.kind)) := by
  generalize stopped : some (fault, left) = stop at h
  induction h with
  | done _ => cases stopped
  | @stuck s _ _ h =>
      cases stopped
      have fails := step_fails h
      exact ⟨fails.left_suffix.trans (s.unread_suffix inline), fails.foundAt⟩
  | @yield s _ _ _ _ h _ ih =>
      obtain ⟨behind, found⟩ := ih stopped
      exact ⟨behind.trans ((step_reads h).rest_suffix.trans (s.unread_suffix inline)), found⟩

end Parser

namespace Lexer

/-- The offsets at which the lexer begins a token of a text: those of the tokens that the text is
cut into or, where it is not, that of the string that is never closed, behind the tokens in
front. -/
inductive BeginsToken (text : Text) : Nat → Prop
  | token {ts span} : tokens text = .ok ts → span ∈ spans ts → BeginsToken text span.start
  | unclosed {before mark after ts} : text = before ++ mark :: after →
      tokens text = .error (mark :: after) → lexeme mark after = .unclosed →
      tokens before = .ok ts → BeginsToken text before.size

theorem beginsToken_of_append {text : Text} {left rest : List Token} {token : Token}
    (cut : tokens text = .ok (left ++ token :: rest)) : BeginsToken text (source left).size := by
  have inside : ⟨token, (source left).size, (source left).size + token.text.size⟩ ∈
      spans (left ++ token :: rest) := by
    rw [spans, spansFrom_append_tokens, spansFrom_cons, Nat.zero_add]
    exact List.mem_append_right _ List.mem_cons_self
  exact .token cut inside

end Lexer

open UtilityCss.Parser UtilityCss.Lexer

theorem SyntaxError.position_before (front unread : Text) (fault : SyntaxFault) :
    (before (front ++ unread) unread fault).position =
      Position.ofOffset (front ++ unread) front.size := by
  rw [before, Text.size_append, Nat.add_sub_cancel]

/-- An error of the parser points at what it is about. -/
theorem Reading.exists_left {source : Text} {tokens : List Token}
    (cut : Lexer.tokens source = .ok tokens) {inline : Bool} {error : SyntaxError}
    (h : (Reading.ofText source inline).error = some error) :
    ∃ front left, tokens = front ++ left ∧ source = Token.source front ++ Token.source left ∧
      error.position = Position.ofOffset source (Token.source front).size ∧
      error.fault.FoundAt (left.head?.map (·.kind)) := by
  obtain ⟨events, stop, run, _⟩ := run_eq inline [] ⟨tokens, []⟩
  rw [Reading.ofText_eq cut run] at h
  obtain ⟨⟨fault, left⟩, rfl, rfl⟩ := Option.map_eq_some_iff.mp h
  obtain ⟨⟨front, rfl⟩, found⟩ := run.left_found
  have whole : source = Token.source front ++ Token.source left := by
    rw [← source_append, (tokens_eq_ok_iff.mp cut).source]
  subst whole
  exact ⟨front, left, rfl, rfl, SyntaxError.position_before _ _ _, found⟩

/-- An error is found where the lexer begins a token, or where the source ends. -/
theorem Reading.exists_front {source : Text} {inline : Bool} {error : SyntaxError}
    (h : (Reading.ofText source inline).error = some error) :
    ∃ front : Text, front <+: source ∧ error.position = Position.ofOffset source front.size ∧
      (BeginsToken source front.size ∨ front = source) := by
  cases cut : Lexer.tokens source with
  | error unread =>
      obtain ⟨front, mark, after, ts, rfl, rfl, unclosed, lexes⟩ := exists_unclosed source cut
      rw [Reading.ofText, cut] at h
      cases h
      refine ⟨front, List.prefix_append _ _, SyntaxError.position_before _ _ _, .inl ?_⟩
      exact .unclosed rfl cut unclosed (tokens_eq_ok_iff.mpr lexes)
  | ok tokens =>
      obtain ⟨front, left, rfl, whole, position, _⟩ := Reading.exists_left cut h
      refine ⟨Token.source front, ⟨_, whole.symm⟩, position, ?_⟩
      cases left with
      | nil => exact .inr (whole.trans (List.append_nil _)).symm
      | cons token rest => exact .inl (beginsToken_of_append cut)

/-- Positions tell the offsets of a text apart, in their order, and lead back to them. So an error
points at one place of the source, where a token begins or where the source ends. -/
theorem positions_tell_offsets (text : Text) :
    (∀ a b, text.Boundary a → text.Boundary b → a < b →
      Position.ofOffset text a < Position.ofOffset text b) ∧
    (∀ a, text.Boundary a → (Position.ofOffset text a).offset? text = some a) ∧
    ∀ inline error, (Reading.ofText text inline).error = some error →
      ∃ offset, text.Boundary offset ∧ (BeginsToken text offset ∨ offset = text.size) ∧
        error.position.offset? text = some offset ∧
        ∀ other, text.Boundary other →
          (Position.ofOffset text other = error.position ↔ other = offset) := by
  have back (a : Nat) (place : text.Boundary a) :
      (Position.ofOffset text a).offset? text = some a :=
    Position.offset?_eq_some_iff.mpr ⟨place, rfl⟩
  refine ⟨fun a b => Position.ofOffset_lt_ofOffset, back, fun inline error fails => ?_⟩
  obtain ⟨front, inside, position, begins⟩ := Reading.exists_front fails
  have place : text.Boundary front.size := ⟨front, inside, rfl⟩
  refine ⟨front.size, place, begins.imp_right (congrArg _), position ▸ back _ place, ?_⟩
  intro other place'
  rw [position]
  constructor
  · intro same
    have there := back other place'
    rw [same, back _ place] at there
    exact (Option.some.inj there).symm
  · intro same
    rw [same]

/-- The name without a colon stands behind a character of two octets, on the second line. -/
theorem positions_tell_missingColon :
    let text : Text := "é\x7b\n  a b\x7d".toList
    text.Boundary 2 ∧ text.Boundary 8 ∧
      (Reading.ofText text false).error = some ⟨.missingColon, ⟨2, 5⟩⟩ ∧
      Position.ofOffset text 2 < Position.ofOffset text 8 ∧
      (Position.ofOffset text 8).offset? text = some 8 ∧
      ∃ offset, (BeginsToken text offset ∨ offset = text.size) ∧
        (⟨2, 5⟩ : Position).offset? text = some offset := by
  intro text
  have begins : text.Boundary 2 := ⟨['é'], by decide, by decide⟩
  have name : text.Boundary 8 := ⟨"é\x7b\n  a ".toList, by decide, by decide⟩
  have fails : (Reading.ofText text false).error = some ⟨.missingColon, ⟨2, 5⟩⟩ := by
    decide +kernel
  obtain ⟨ordered, back, points⟩ := positions_tell_offsets text
  obtain ⟨offset, _, place, there, _⟩ := points false _ fails
  exact ⟨begins, name, fails, ordered 2 8 begins name (by decide), back 8 name, offset, place,
    there⟩

end UtilityCss
