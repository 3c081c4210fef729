import UtilityCss.Proofs.Event.Joining

/-!
The raw text of a custom property beside the tokens it was read from. It is trimmed as a text and
not as tokens. The white space at its end goes, and with it the blanks that the tokens in front of
the white space end with, so an escaped space or an identifier in a wider alphabet may lose its
last character. Where the last token ends with no blank the text is that of the tokens.
-/
namespace UtilityCss
open UtilityCss.Token

namespace Parser

/-- Where the tokens of a custom property stand: behind its name and its colon, up to the token that
ends the item. -/
theorem Reads.customProperty_eq {blocks : List Block} {t : Traced} {events : List Event}
    {next : State} (h : Reads blocks t.unread events next) (read : t.event ∈ events)
    {name raw : Text} (event : t.event = .customProperty name raw) :
    ∃ spaces text, t.unread = ⟨.ident, name⟩ :: spaces ++ ⟨.colon, text⟩ :: t.rawTokens ++
      t.ending ∧ ∀ token ∈ spaces, token.isWhitespace = true := by
  obtain ⟨e, unread⟩ := t
  obtain rfl : e = .customProperty name raw := event
  simp only at h read
  cases h with
  | ended | closed =>
      simp only [List.mem_singleton, Block.ended] at read
      split at read <;> cases read
  | comment | marker _ | atRule _ | beginAtRule _ => simp at read
  | selectors _ _ _ =>
      obtain ⟨_, _, same | same⟩ := mem_selectorEvents read <;> cases same
  | @declaration _ first rest text more _ found _ =>
      rw [List.mem_singleton, declarationEvent] at read
      split at read
      next custom =>
        cases read
        obtain ⟨kind, text'⟩ := first
        obtain rfl : kind = .ident := by
          rw [isCustomName, Bool.and_eq_true, beq_iff_eq] at custom
          exact custom.1
        have parts := List.takeWhile_append_dropWhile (p := (·.isWhitespace)) (l := rest)
        have colon : rest.dropWhile (·.isWhitespace) = ⟨.colon, text⟩ :: more := by
          simpa [skipTrivial] using found
        rw [colon, ← (Item.scan_scanned more).cover] at parts
        refine ⟨rest.takeWhile (·.isWhitespace), text, ?_, List.all_eq_true.mp List.all_takeWhile⟩
        simp only [Traced.rawTokens, Traced.ending, List.tail_cons, found, List.drop_one,
          List.cons_append, List.append_assoc, parts]
      next => cases read

end Parser

open UtilityCss.Parser

/-- The raw text of a custom property is that of the tokens between its colon and the end of its
item less white space at the end, and less the blanks that are at the end then. No blank is, so that
all is kept, exactly where the last of these tokens ends with none. -/
theorem reading_trims_raw {source : Text} {tokens : List Token}
    (cut : Lexer.tokens source = .ok tokens) (inline : Bool) :
    (trace inline ⟨tokens, []⟩).map Traced.event = (Reading.ofText source inline).events ∧
      ∀ t ∈ trace inline ⟨tokens, []⟩, ∀ name raw, t.event = .customProperty name raw →
        (∃ front spaces, tokens =
            front ++ (⟨.ident, name⟩ :: spaces ++ colon :: t.rawTokens ++ t.ending) ∧
          ∀ token ∈ spaces, token.isWhitespace = true) ∧
        (∃ blanks, Token.source (trimEnd t.rawTokens) = raw ++ blanks ∧
          ∀ c ∈ blanks, Text.isBlank c = true) ∧
        (raw = Token.source (trimEnd t.rawTokens) ↔
          ∀ last ∈ (trimEnd t.rawTokens).getLast?, ∀ c ∈ last.text.getLast?,
            Text.isBlank c = false) := by
  obtain ⟨stop, run, _⟩ := Reading.ofText_run cut inline
  refine ⟨run.trace_events, fun t inside name raw event => ?_⟩
  have lexes := Lexer.tokens_eq_ok_iff.mp cut
  obtain ⟨⟨front, whole⟩, _, _, _, reads, read⟩ := mem_trace inside
  have whole : front ++ t.unread = tokens := whole
  have here : t.rawTokens ⊆ tokens := fun _ held =>
    whole ▸ List.mem_append_right front (t.rawTokens_subset held)
  have filled : ∀ token ∈ t.rawTokens, token.text ≠ [] := fun token held =>
    lexes.text_ne_nil token (here held)
  have spaces : ∀ token ∈ t.rawTokens, token.isWhitespace = true → ∀ c ∈ token.text,
      Text.isBlank c := fun token held white c found =>
    isBlank_of_isSpace (lexes.whitespace token (here held) white c found)
  have trimmed : raw = Text.trimEnd (Token.source t.rawTokens) := reads.raw read name raw event
  refine ⟨?place, ?blanks, ?kept⟩
  case place =>
    obtain ⟨between, text, unread, white⟩ := reads.customProperty_eq read event
    have mark : text = [':'] := lexes.regular ⟨.colon, text⟩ (by simp [← whole, unread]) ':' rfl
    subst mark
    exact ⟨front, between, by rw [← whole, unread]; rfl, white⟩
  case blanks =>
    obtain ⟨blanks, parts, blank⟩ :=
      Text.trimEnd_append_blanks (Token.source (trimEnd t.rawTokens))
    rw [← trimEnd_source spaces, ← trimmed] at parts
    exact ⟨blanks, parts.symm, blank⟩
  case kept =>
    rw [trimmed]
    exact trimEnd_source_eq_iff filled spaces

/-- A comment at the end of a value is a part of it, the white space after it is not. -/
theorem trims_raw_comment :
    let tokens : List Token :=
      [⟨.ident, ['a']⟩, leftBrace, ⟨.ident, "--b".toList⟩, colon, ⟨.whitespace, [' ']⟩,
        ⟨.ident, ['c']⟩, ⟨.comment, "/* d */".toList⟩, ⟨.whitespace, [' ']⟩, rightBrace]
    Lexer.tokens "a\x7b--b: c/* d */ \x7d".toList = .ok tokens ∧
      ∃ t ∈ trace false ⟨tokens, []⟩,
        t.event = .customProperty "--b".toList " c/* d */".toList ∧
          Token.source (trimEnd t.rawTokens) = " c/* d */".toList := by
  intro tokens
  have cut : Lexer.tokens "a\x7b--b: c/* d */ \x7d".toList = .ok tokens := by decide +kernel
  have read : ∃ t ∈ trace false ⟨tokens, []⟩,
      t.event = .customProperty "--b".toList " c/* d */".toList ∧
        ∀ last ∈ (trimEnd t.rawTokens).getLast?,
          last.text.getLast?.all (!Text.isBlank ·) = true := by
    decide +kernel
  obtain ⟨t, inside, event, ends⟩ := read
  have kept := ((reading_trims_raw cut false).2 t inside _ _ event).2.2
  exact ⟨cut, t, inside, event, (kept.mpr (by simpa [Option.all_eq_true] using ends)).symm⟩

/-- An escaped space at the end of an identifier goes with the white space behind it, so that a
backslash is left. -/
theorem trims_raw_escape :
    let tokens : List Token :=
      [⟨.ident, ['a']⟩, leftBrace, ⟨.ident, "--b".toList⟩, colon, ⟨.ident, "c\\ ".toList⟩,
        rightBrace]
    Lexer.tokens "a\x7b--b:c\\ \x7d".toList = .ok tokens ∧
      (Reading.ofText "a\x7b--b:c\\ \x7d".toList false).error = none ∧
      ∃ t ∈ trace false ⟨tokens, []⟩, t.event = .customProperty "--b".toList "c\\".toList ∧
        t.rawTokens = [⟨.ident, "c\\ ".toList⟩] ∧
        Token.source (trimEnd t.rawTokens) ≠ "c\\".toList := by
  decide +kernel

end UtilityCss
