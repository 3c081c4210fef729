import Mathlib.Data.List.Chain
import UtilityCss.Proofs.Text.Position
import UtilityCss.Proofs.Token.Boundary
import UtilityCss.Event.Parser

/-!
Reading a text as tokens loses nothing of it. The tokens lie one after the other from its begin to
its end. Where there are none, a string is never closed, and its quotation mark is the first
character that is left: what stands in front of it is read by itself, as no token there looks as far
as the mark.
-/
namespace UtilityCss

/-- Spans that take a source apart: stretches of its text that are not empty, each from where the
one before it ends, from the begin of the source to its end. -/
structure Cover (source : Text) (spans : List Token.Spanned) : Prop where
  nonempty : ∀ span ∈ spans, span.start < span.stop
  inSource : ∀ span ∈ spans, ∃ before after, source = before ++ span.token.text ++ after ∧
    span.start = before.size ∧ span.stop = (before ++ span.token.text).size
  joined : spans.IsChain fun left right => left.stop = right.start
  begins : ∀ first ∈ spans.head?, first.start = 0
  ends : (spans.getLast?.map (·.stop)).getD 0 = source.size

namespace Token

theorem spansFrom_append (found : List Spanned) (start : Nat) (ts : List Token) :
    spansFrom found start ts = found.reverse ++ spansFrom [] start ts := by
  induction ts generalizing found start with
  | nil => simp [spansFrom]
  | cons token ts ih =>
      rw [spansFrom, ih, spansFrom, ih [_]]
      simp

theorem spansFrom_cons (start : Nat) (token : Token) (ts : List Token) :
    spansFrom [] start (token :: ts) =
      ⟨token, start, start + token.text.size⟩ :: spansFrom [] (start + token.text.size) ts :=
  spansFrom_append [_] _ ts

theorem spansFrom_append_tokens (start : Nat) (left right : List Token) :
    spansFrom [] start (left ++ right) =
      spansFrom [] start left ++ spansFrom [] (start + (source left).size) right := by
  induction left generalizing start with
  | nil => rfl
  | cons token left ih =>
      rw [List.cons_append, spansFrom_cons, spansFrom_cons, ih, source_cons, Text.size_append,
        Nat.add_assoc, List.cons_append]

/-- The tokens of spans are those they were made of. -/
theorem map_token_spansFrom (start : Nat) (ts : List Token) :
    (spansFrom [] start ts).map (·.token) = ts := by
  induction ts generalizing start with
  | nil => rfl
  | cons token ts ih => rw [spansFrom_cons, List.map_cons, ih]

theorem start_of_head {start : Nat} {ts : List Token} :
    ∀ first ∈ (spansFrom [] start ts).head?, first.start = start := by
  intro first found
  cases ts with
  | nil => cases found
  | cons token ts =>
      rw [spansFrom_cons] at found
      cases found
      rfl

theorem isChain_spansFrom (start : Nat) (ts : List Token) :
    (spansFrom [] start ts).IsChain fun left right => left.stop = right.start := by
  induction ts generalizing start with
  | nil => exact .nil
  | cons token ts ih =>
      rw [spansFrom_cons, List.isChain_cons]
      exact ⟨fun next first => (start_of_head next first).symm, ih _⟩

theorem stop_of_getLast (start : Nat) (ts : List Token) :
    ((spansFrom [] start ts).getLast?.map (·.stop)).getD start = start + (source ts).size := by
  induction ts generalizing start with
  | nil => rfl
  | cons token ts ih =>
      rw [spansFrom_cons, source_cons, Text.size_append, List.getLast?_cons, ← Nat.add_assoc, ← ih]
      cases (spansFrom [] (start + token.text.size) ts).getLast? <;> rfl

theorem inSource_of_spansFrom (before : Text) (ts : List Token) :
    ∀ span ∈ spansFrom [] before.size ts, ∃ left right,
      before ++ source ts = left ++ span.token.text ++ right ∧
        span.start = left.size ∧ span.stop = (left ++ span.token.text).size := by
  induction ts generalizing before with
  | nil => exact nofun
  | cons token ts ih =>
      rw [spansFrom_cons, ← Text.size_append, source_cons, ← List.append_assoc,
        List.forall_mem_cons]
      exact ⟨⟨before, source ts, rfl, rfl, rfl⟩, ih (before ++ token.text)⟩

end Token

theorem cover_spans {ts : List Token} (filled : ∀ token ∈ ts, token.text ≠ []) :
    Cover (Token.source ts) (Token.spans ts) where
  nonempty := by
    intro span inside
    obtain ⟨before, after, _, start, stop⟩ := Token.inSource_of_spansFrom [] ts span inside
    have token : span.token ∈ ts :=
      Token.map_token_spansFrom 0 ts ▸ List.mem_map_of_mem (f := (·.token)) inside
    have size := mt Text.eq_nil_of_size (filled span.token token)
    rw [Text.size_append] at stop
    omega
  inSource := Token.inSource_of_spansFrom [] ts
  joined := Token.isChain_spansFrom 0 ts
  begins := Token.start_of_head
  ends := (Token.stop_of_getLast 0 ts).trans (Nat.zero_add _)

namespace Lexer

theorem Lexes.delim_length {text : Text} {ts : List Token} (h : Lexes text ts) :
    ∀ token ∈ ts, token.kind = .delim → token.text.length = 1 :=
  h.forall_mem (fun _ _ => rfl) fun _ _ _ _ lexed delim => absurd delim (lexeme_ne_delim lexed)

theorem numeric_ne_unclosed (mantissa : Nat) (text : Text) : numeric mantissa text ≠ .unclosed := by
  simp only [numeric]
  repeat' split
  all_goals
    intro same
    cases same

theorem word_ne_unclosed (ident : Nat) (text : Text) : word ident text ≠ .unclosed := by
  simp only [word, address]
  repeat' split
  all_goals
    intro same
    cases same

/-- Nothing but a quotation mark begins what is never closed. -/
theorem quote_of_unclosed {c : Char} {rest : Text} (h : lexeme c rest = .unclosed) :
    c ∈ quotes := by
  simp only [lexeme] at h
  split at h
  · cases h
  · split at h
    case h_13 | h_14 => split at h <;> cases h
    case h_15 =>
      split at h
      next quote => simpa [quotes] using quote
      · split at h
        · exact absurd h (numeric_ne_unclosed _ _)
        · split at h
          · exact absurd h (word_ne_unclosed _ _)
          · cases h
    all_goals cases h

/-- A lexeme in front of a quotation mark is read without it where the text in between is. -/
theorem Lexes.cons_before {c mark : Char} {rest before after : Text} {ts : List Token}
    (closed : lexeme c rest ≠ .unclosed) (quote : mark ∈ quotes)
    (left : rest.drop (lexeme c rest).more = before ++ mark :: after) (lexes : Lexes before ts) :
    ∃ v ts', rest = v ++ mark :: after ∧ Lexes (c :: v) ts' := by
  obtain ⟨v, rfl⟩ : ∃ v, rest = v ++ mark :: after := by
    refine ⟨rest.take (lexeme c rest).more ++ before, ?_⟩
    rw [List.append_assoc, ← left, List.take_append_drop]
  have inside : (lexeme c (v ++ mark :: after)).more ≤ v.length := by
    have size := congrArg List.length left
    simp only [List.length_drop, List.length_append, List.length_cons] at size
    omega
  have same := lexeme_cut (.atEnd (mem_stops_of_quote quote)) after closed inside
  rw [List.append_nil] at same
  have between : v.drop (lexeme c v).more = before := by
    rw [List.drop_append_of_le_length inside] at left
    rw [same]
    exact List.append_cancel_right left
  exact ⟨v, _, rfl, .cons (same ▸ closed) (between ▸ lexes)⟩

/-- Where there are no tokens, a lexeme is never closed, and what stands in front of it is read by
itself. -/
theorem exists_unclosed {found : List Token} {unread : Text} (text : Text)
    (h : tokensFrom found text = .error unread) :
    ∃ before mark after ts, text = before ++ mark :: after ∧ unread = mark :: after ∧
      lexeme mark after = .unclosed ∧ Lexes before ts := by
  match text with
  | [] =>
      rw [tokensFrom] at h
      cases h
  | c :: rest =>
      by_cases unclosed : lexeme c rest = .unclosed
      · rw [tokensFrom_unclosed unclosed] at h
        cases h
        exact ⟨[], c, rest, [], rfl, rfl, unclosed, .nil⟩
      · rw [tokensFrom_cons unclosed] at h
        obtain ⟨before, mark, after, ts, left, rfl, open', lexes⟩ :=
          exists_unclosed (rest.drop (lexeme c rest).more) h
        obtain ⟨v, ts', rfl, lexes⟩ := lexes.cons_before unclosed (quote_of_unclosed open') left
        exact ⟨c :: v, mark, after, ts', rfl, rfl, open', lexes⟩
termination_by text.length
decreasing_by
  rw [List.length_drop, List.length_cons]
  omega

theorem lexes_before_unclosed {found : List Token} {unread : Text} (text : Text)
    (h : tokensFrom found text = .error unread) :
    ∃ before mark after ts, text = before ++ mark :: after ∧ unread = mark :: after ∧
      mark ∈ quotes ∧ Lexes before ts := by
  obtain ⟨before, mark, after, ts, whole, rfl, unclosed, lexes⟩ := exists_unclosed text h
  exact ⟨before, mark, after, ts, whole, rfl, quote_of_unclosed unclosed, lexes⟩

end Lexer

open Lexer

/-- A text is read as tokens that cover it, each delimiter one character, or a string in it is never
closed. Then nothing comes of it but the error, found at the quotation mark of that string, and what
stands in front of the mark is read as tokens. -/
theorem tokens_cover (source : Text) :
    match Lexer.tokens source with
    | .ok ts =>
      (Token.spans ts).map (·.token) = ts ∧ Cover source (Token.spans ts) ∧
        ∀ token ∈ ts, token.kind = .delim → token.text.length = 1
    | .error unread =>
      ∃ before mark after error, source = before ++ mark :: after ∧ unread = mark :: after ∧
        mark ∈ quotes ∧ (∀ inline, Reading.ofText source inline = ⟨[], some error⟩) ∧
        error.fault.message = "unterminated string" ∧
        error.position = Position.ofOffset source before.size ∧
        error.position = Position.start.afterText before ∧
        ∃ ts, Lexer.tokens before = .ok ts := by
  cases read : Lexer.tokens source with
  | ok ts =>
      have lexes := tokens_eq_ok_iff.mp read
      refine ⟨Token.map_token_spansFrom 0 ts, ?_, lexes.delim_length⟩
      rw [← lexes.source]
      exact cover_spans lexes.text_ne_nil
  | error unread =>
      obtain ⟨before, mark, after, ts, rfl, rfl, quote, lexes⟩ := lexes_before_unclosed source read
      let error := SyntaxError.before (before ++ mark :: after) (mark :: after) .unterminatedString
      have place : error.position = Position.ofOffset (before ++ mark :: after) before.size := by
        show Position.ofOffset _ (Text.size (before ++ mark :: after) - _) = _
        rw [Text.size_append, Nat.add_sub_cancel]
      refine ⟨before, mark, after, error, rfl, rfl, quote, fun inline => ?_, rfl, place,
        place.trans (Position.ofOffset_append _ _), ts, tokens_eq_ok_iff.mpr lexes⟩
      rw [Reading.ofText, read]

end UtilityCss
