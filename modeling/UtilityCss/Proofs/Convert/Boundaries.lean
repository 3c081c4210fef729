import Mathlib.Data.List.Basic
import UtilityCss.Proofs.Convert.Rendering
import UtilityCss.Proofs.Event.Keeping

/-!
What conversion does to the boundaries of tokens. Without directives the output is the text of all
events, and its tokens are those that were written as long as no event runs its own together. That
happens where a comment between two tokens is dropped.
-/
namespace UtilityCss.Convert
open UtilityCss.Parser UtilityCss.Lexer UtilityCss.Token

/-- Without directives the output of an input is the text of its events. -/
theorem run_text {settings : Settings} {input : Input} {css : Text} {room : Option Room}
    {output : Output} (read : input.source.text [] = .ok css)
    (direct : ∀ e ∈ (Reading.ofText css input.inline).events, isDirectiveEvent e = false)
    (ran : run settings [input] room = .ok output) :
    output.text = (Reading.ofText css input.inline).events.flatMap Event.written := by
  obtain ⟨p, walked, same⟩ := runWith_eq_ok ran
  rw [List.foldlM_cons] at walked
  obtain ⟨p₁, walked, last⟩ := bind_eq_ok.mp walked
  cases last
  obtain ⟨css', text, opened, renders, standing, whole⟩ :=
    walkInput_renders (start_standing settings.dist room) walked
  cases opened.symm.trans read
  rw [same standing.counted, whole, renders.eq_written direct]
  rfl

/-- The output of an input without directives is cut into the tokens that were written exactly when
the text of every single event is, and so it is where the source is firm. -/
theorem run_keeps_tokens {settings : Settings} {input : Input} {css : Text} {tokens : List Token}
    {room : Option Room} {output : Output} (read : input.source.text [] = .ok css)
    (cut : Lexer.tokens css = .ok tokens)
    (direct : ∀ e ∈ (Reading.ofText css input.inline).events, isDirectiveEvent e = false)
    (ran : run settings [input] room = .ok output) :
    let written := (trace input.inline ⟨tokens, []⟩).flatMap Traced.written
    (Lexer.tokens output.text = .ok written ↔ ∀ t ∈ trace input.inline ⟨tokens, []⟩, t.Kept) ∧
      (Firm tokens → Lexer.tokens output.text = .ok written) := by
  intro written
  obtain ⟨stop, hrun, _⟩ := Reading.ofText_run cut input.inline
  have text : output.text = (trace input.inline ⟨tokens, []⟩).flatMap (·.event.written) := by
    rw [run_text read direct ran, ← hrun.trace_events, List.flatMap_map]
  have whole : Lexer.tokens output.text = .ok written ↔
      ∀ t ∈ trace input.inline ⟨tokens, []⟩, t.Kept := by
    rw [tokens_eq_ok_iff, text]
    exact Traced.lexes_written_iff (length_written_of_trace cut)
  exact ⟨whole, fun firm => whole.mpr (kept_of_firm cut firm input.inline)⟩

/-- Values between which white space stands, and a custom property that begins with some. -/
theorem keeps_tokens_ruleset :
    let settings : Settings := ⟨.inMemory (fun _ => none) none, none⟩
    let input : Input := ⟨"in.css", .steady (.ofText "a , b\x7bc : d e;--f: g \x7d".toList), false⟩
    let space : Token := ⟨.whitespace, [' ']⟩
    let tokens : List Token :=
      [⟨.ident, ['a']⟩, space, comma, space, ⟨.ident, ['b']⟩, leftBrace, ⟨.ident, ['c']⟩, space,
        colon, space, ⟨.ident, ['d']⟩, space, ⟨.ident, ['e']⟩, semicolon, ⟨.ident, "--f".toList⟩,
        colon, space, ⟨.ident, ['g']⟩, space, rightBrace]
    ∃ output, run settings [input] none = .ok output ∧
      output.text = "a,b\x7bc:d e;--f: g;\x7d".toList ∧
      Lexer.tokens output.text =
        .ok ((trace input.inline ⟨tokens, []⟩).flatMap Traced.written) := by
  intro settings input space tokens
  have written : (run settings [input] none).map Output.text =
      .ok "a,b\x7bc:d e;--f: g;\x7d".toList := by decide +kernel
  have read : input.source.text [] = .ok "a , b\x7bc : d e;--f: g \x7d".toList := by decide +kernel
  have cut : Lexer.tokens "a , b\x7bc : d e;--f: g \x7d".toList = .ok tokens := by decide +kernel
  have direct : ∀ e ∈ (Reading.ofText "a , b\x7bc : d e;--f: g \x7d".toList input.inline).events,
      isDirectiveEvent e = false := by decide +kernel
  have firm : Firm tokens := by decide +kernel
  cases ran : run settings [input] none with
  | error halt =>
      rw [ran] at written
      cases written
  | ok output =>
      rw [ran] at written
      obtain ⟨_, kept⟩ := run_keeps_tokens read cut direct ran
      exact ⟨output, rfl, Except.ok.inj written, kept firm⟩

/-- A comment that is dropped lets the tokens on its sides run together. -/
theorem dropped_comment_joins :
    let settings : Settings := ⟨.inMemory (fun _ => none) none, none⟩
    let input : Input := ⟨"in.css", .steady (.ofText "a\x7bb:c/**/d\x7d".toList), false⟩
    let tokens : List Token :=
      [⟨.ident, ['a']⟩, leftBrace, ⟨.ident, ['b']⟩, colon, ⟨.ident, ['c']⟩,
        ⟨.comment, "/**/".toList⟩, ⟨.ident, ['d']⟩, rightBrace]
    Lexer.tokens "a\x7bb:c/**/d\x7d".toList = .ok tokens ∧
      (trace input.inline ⟨tokens, []⟩).flatMap Traced.written =
        [⟨.ident, ['a']⟩, leftBrace, ⟨.ident, ['b']⟩, colon, ⟨.ident, ['c']⟩, ⟨.ident, ['d']⟩,
          semicolon, rightBrace] ∧
      (run settings [input] none).map (fun output => Lexer.tokens output.text) =
        .ok (.ok [⟨.ident, ['a']⟩, leftBrace, ⟨.ident, ['b']⟩, colon, ⟨.ident, ['c', 'd']⟩,
          semicolon, rightBrace]) := by
  decide +kernel

end UtilityCss.Convert
