import UtilityCss.Proofs.Event.Path

/-!
Semicolons written twice. What a second semicolon behind a declaration does depends on the innermost
open block. Rulesets and lists of declarations pass over it, so nothing changes. An at-rule block
does not: the semicolon is taken for the name of a declaration, and the events are others or fewer.
-/
namespace UtilityCss
open UtilityCss.Token
namespace Parser

namespace Item

/-- A scan that does not stop at a semicolon is within a group and passes a second one, too. -/
theorem scan_doubled_stop (x back : List Token) :
    (scan (x ++ semicolon :: semicolon :: back)).stop = (scan (x ++ semicolon :: back)).stop := by
  refine scan_stop_congr (fun depth => ?_) x
  by_cases top : depth = 0
  · simp [scanFrom, top, Stop.ofKind?, semicolon]
  · have passes (found rest : List Token) :
        scanFrom depth found (semicolon :: rest) = scanFrom depth (semicolon :: found) rest :=
      scanFrom_cons fun zero => absurd zero top
    rw [passes, passes, passes]
    exact scanFrom_stop depth _ _ back

end Item

theorem step_semicolon {inline : Bool} {blocks : List Block}
    (skips : onlyDeclarations inline blocks = true) (back : List Token) :
    step inline ⟨semicolon :: back, blocks⟩ = step inline ⟨back, blocks⟩ := by
  simp [step, skipTrivial, skips, semicolon]

theorem step_semicolon_atRule (inline : Bool) (blocks : List Block) (back : List Token) :
    step inline ⟨semicolon :: back, .atRule :: blocks⟩ =
      declaration semicolon back (.atRule :: blocks) := by
  simp [step, skipTrivial, onlyDeclarations, itemStep, isDeclaration, Item.scan, Item.scanFrom,
    Stop.ofKind?, semicolon, isWhitespace]

theorem Run.events_ne_nil {inline : Bool} {s : State} {events : List Event}
    (run : Run inline s events none) (unclosed : s.blocks ≠ []) : events ≠ [] := by
  cases run with
  | done done => exact absurd (blocks_of_done done) unclosed
  | yield yields _ => exact List.append_ne_nil_of_left_ne_nil (step_reads yields).events_ne_nil _

/-- The declaration that a colon begins in an at-rule block. -/
theorem step_colon {inline : Bool} {text : Text} {back tail : List Token} {blocks : List Block}
    (colon : skipTrivial false back = ⟨.colon, text⟩ :: tail)
    (declares : (Item.scan tail).stop ≠ .leftBrace) :
    step inline ⟨back, .atRule :: blocks⟩ =
      declaration ⟨.colon, text⟩ tail (.atRule :: blocks) := by
  have unread : State.unread inline ⟨back, .atRule :: blocks⟩ = ⟨.colon, text⟩ :: tail := colon
  have stop : (Item.scan (⟨.colon, text⟩ :: tail)).stop = (Item.scan tail).stop :=
    Item.scan_neutral_stop rfl (fun _ => rfl) [] tail
  rw [step_of_unread unread, itemStep]
  simp [isDeclaration, stop, declares]

theorem declaration_declares {name : Token} {rest tail : List Token} {text : Text}
    {blocks : List Block} {events : List Event} {next : State}
    (h : declaration name rest blocks = .yield events next)
    (colon : skipTrivial false rest = ⟨.colon, text⟩ :: tail) :
    (Item.scan tail).stop ≠ .leftBrace := by
  intro brace
  simp only [declaration, colon, brace] at h
  cases h

/-- In an at-rule block a semicolon is no part of what comes after it, it becomes a name. -/
theorem Run.semicolon_ne {inline : Bool} {back : List Token} {blocks : List Block}
    {events events' : List Event} {stop : Option (SyntaxFault × List Token)}
    (regular : ∀ token ∈ back, token.Regular)
    (run : Run inline ⟨back, .atRule :: blocks⟩ events none)
    (doubled : Run inline ⟨semicolon :: back, .atRule :: blocks⟩ events' stop) :
    events' ≠ events := by
  cases doubled with
  | done done =>
      have unread := unread_of_done done
      simp [State.unread, onlyDeclarations, skipTrivial, isWhitespace, semicolon] at unread
  | stuck => exact (run.events_ne_nil (by simp)).symm
  | yield yields _ =>
      rw [step_semicolon_atRule] at yields
      obtain ⟨text, tail, colon, rfl⟩ := declaration_found yields
      have step := @step_colon inline _ _ _ blocks colon (declaration_declares yields colon)
      have mark : text = [':'] := by
        have inside := (skipTrivial_suffix false back).subset (colon ▸ List.mem_cons_self)
        exact regular _ inside ':' rfl
      subst mark
      cases run with
      | done done => cases colon.symm.trans (unread_of_done done)
      | yield yields' _ =>
          rw [step] at yields'
          obtain ⟨_, _, _, rfl⟩ := declaration_found yields'
          simp [declarationEvent, isCustomName, semicolon]

/-- The path through a declaration that ends with a semicolon. -/
theorem Path.through_declaration {inline : Bool} {s : State} {before after : List Traced}
    {t : Traced} (place : trace inline s = before ++ t :: after)
    (declared : t.event.isDeclared = true) {back : List Token} (ends : t.ending = semicolon :: back)
    {blocks : List Block} (around : Nested inline s.blocks (before.map Traced.event) blocks) :
    Path inline s (before ++ [t]) ⟨back, blocks⟩ ∧ (∀ u ∈ before ++ [t], u.EndsBefore back) ∧
      (blocks.head? = none → inline = true) := by
  obtain ⟨here, next, path, step, unread⟩ := path_of_trace place declared
  obtain rfl := path.nested.unique around
  obtain ⟨event, _⟩ := t
  obtain rfl := unread
  have left : next.rest = back := by
    have cases := (step_reads step).rest_cases List.mem_cons_self
    rw [ends] at cases
    obtain rest | ⟨_, brace⟩ := cases
    · exact rest
    · cases brace semicolon rfl
  obtain ⟨fits, _, kept⟩ := nested_cons_iff.mp (step_nested step)
  have blocks : next.blocks = here.blocks := by
    rw [← Nested.unique .nil kept, Event.blocksAfter_of_isDeclared declared]
  obtain rfl : next = ⟨back, here.blocks⟩ := by rw [← left, ← blocks]
  refine ⟨path.append (.cons step .nil), ?_, Event.fits_of_isDeclared declared fits⟩
  have last : semicolon :: back <:+ here.rest :=
    ends ▸ (Traced.ending_suffix _).trans (here.unread_suffix inline)
  rw [List.forall_mem_append, List.forall_mem_singleton]
  refine ⟨fun u inside => ?_, [semicolon], by simp, ends⟩
  obtain ⟨r, whole⟩ := last.trans (path.rest_suffix_ending u inside)
  exact ⟨r ++ [semicolon], by simp, by simp [← whole]⟩

/-- What is read up to the second semicolon does not change. -/
theorem Path.run_doubled {inline : Bool} {front back : List Token} {blocks blocks' : List Block}
    {ts : List Traced} (path : Path inline ⟨front ++ semicolon :: back, blocks⟩ ts ⟨back, blocks'⟩)
    (ends : ∀ t ∈ ts, t.EndsBefore back) {events : List Event}
    {stop : Option (SyntaxFault × List Token)}
    (run : Run inline ⟨semicolon :: back, blocks'⟩ events stop) :
    Run inline ⟨front ++ semicolon :: semicolon :: back, blocks⟩ (ts.map Traced.event ++ events)
      stop := by
  have marked (w rest : List Token) : w ++ semicolon :: rest = (w ++ [semicolon]) ++ rest := by simp
  rw [marked] at path ⊢
  refine path.run_replace ends (fun u suffix some => ?_) (y := []) rfl run
  obtain rfl | ⟨w, rfl, _⟩ := List.suffix_concat_iff.mp suffix
  · exact absurd rfl some
  · rw [← marked, ← marked]
    exact Item.scan_doubled_stop w back

end Parser

open UtilityCss.Parser UtilityCss.Lexer

theorem lexes_doubled_semicolon {source : Text} {front back : List Token}
    (lexed : Lexes source (front ++ semicolon :: back)) :
    Lexes (Token.source front ++ ';' :: ';' :: Token.source back)
      (front ++ semicolon :: semicolon :: back) := by
  have ended : Ended (front ++ [semicolon]) := by
    intro last found
    rw [List.getLast?_concat] at found
    cases found
    exact ⟨';', by decide, rfl, rfl⟩
  have covers : Token.source (front ++ [semicolon]) = Token.source front ++ [';'] :=
    source_append front _
  have parted : Lexes ((Token.source front ++ [';']) ++ Token.source back)
      ((front ++ [semicolon]) ++ back) := by
    rw [← covers, ← source_append, List.append_assoc, List.singleton_append, lexed.source]
    exact lexed
  obtain ⟨first, rest⟩ := (lexes_append_iff ended covers).mp parted
  have second : Lexes (';' :: Token.source back) (semicolon :: back) :=
    (lexes_mark_iff rfl).mpr rest
  simpa using (lexes_append_iff ended covers).mpr ⟨first, second⟩

/-- A second semicolon behind the one that ends a declaration changes nothing, unless the
declaration stands in an at-rule block itself. There the events are never the same again. -/
theorem reading_doubled_semicolon {source : Text} {inline : Bool} {front back : List Token}
    (cut : Lexer.tokens source = .ok (front ++ semicolon :: back))
    (parses : (Reading.ofText source inline).error = none) {before after : List Traced} {t : Traced}
    (place : trace inline ⟨front ++ semicolon :: back, []⟩ = before ++ t :: after)
    (declared : t.event.isDeclared = true) (ends : t.ending = semicolon :: back)
    {blocks : List Block} (around : Nested inline [] (before.map Traced.event) blocks) :
    let doubled := Token.source front ++ ';' :: ';' :: Token.source back
    (blocks.head? ≠ some .atRule → Reading.ofText doubled inline = Reading.ofText source inline) ∧
      (blocks.head? = some .atRule →
        (Reading.ofText doubled inline).events ≠ (Reading.ofText source inline).events) := by
  intro doubled
  have lexed := tokens_eq_ok_iff.mp cut
  have cut' : Lexer.tokens doubled = .ok (front ++ semicolon :: semicolon :: back) :=
    tokens_eq_ok_iff.mpr (lexes_doubled_semicolon lexed)
  obtain ⟨stop, run, whole⟩ := Reading.ofText_run cut inline
  obtain rfl := whole.mp parses
  obtain ⟨path, before, top⟩ := Path.through_declaration place declared ends around
  obtain ⟨more, events, rest⟩ := path.rest_run run
  rw [events] at run
  rw [Reading.ofText_eq cut run]
  constructor
  · intro outside
    have skips : onlyDeclarations inline blocks = true := by
      cases blocks with
      | nil => exact top rfl
      | cons block blocks => cases block <;> first | rfl | exact absurd rfl outside
    exact Reading.ofText_eq cut'
      (path.run_doubled before (rest.congr (step_semicolon skips back).symm))
  · intro inside
    obtain ⟨others, rfl⟩ := List.head?_eq_some_iff.mp inside
    obtain ⟨events', stop, doubled, _⟩ := run_eq inline [] ⟨semicolon :: back, .atRule :: others⟩
    have regular : ∀ token ∈ back, token.Regular := fun token member =>
      lexed.regular token (by simp [member])
    rw [Reading.ofText_eq cut' (path.run_doubled before doubled)]
    exact fun same => rest.semicolon_ne regular doubled (List.append_cancel_left same)

/-- The value of the custom property hides a semicolon, and a declaration comes after it. -/
theorem doubled_semicolon_ruleset :
    let front : List Token :=
      [⟨.ident, ['a']⟩, leftBrace, ⟨.ident, "--b".toList⟩, colon, ⟨.leftParen, ['(']⟩, semicolon,
        ⟨.rightParen, [')']⟩]
    let back : List Token := [⟨.ident, ['d']⟩, colon, ⟨.ident, ['e']⟩, rightBrace]
    Lexer.tokens "a\x7b--b:(;);d:e\x7d".toList = .ok (front ++ semicolon :: back) ∧
      (Reading.ofText "a\x7b--b:(;);d:e\x7d".toList false).error = none ∧
      Reading.ofText "a\x7b--b:(;);;d:e\x7d".toList false =
        Reading.ofText "a\x7b--b:(;);d:e\x7d".toList false := by
  intro front back
  have cut : Lexer.tokens "a\x7b--b:(;);d:e\x7d".toList = .ok (front ++ semicolon :: back) := by
    decide +kernel
  have parses : (Reading.ofText "a\x7b--b:(;);d:e\x7d".toList false).error = none := by
    decide +kernel
  let opened : Traced := ⟨.beginRuleset [⟨.ident, ['a']⟩], front ++ semicolon :: back⟩
  let declared : Traced :=
    ⟨.customProperty "--b".toList "(;)".toList, (front ++ semicolon :: back).drop 2⟩
  have place : trace false ⟨front ++ semicolon :: back, []⟩ = [opened] ++ declared ::
      [⟨.declaration ['d'] [⟨.ident, ['e']⟩], back⟩, ⟨.endRuleset, [rightBrace]⟩] := by
    decide +kernel
  have ends : declared.ending = semicolon :: back := by decide +kernel
  have around : Nested false [] ([opened].map Traced.event) [.ruleset] :=
    .cons (by simp [opened, Event.Fits]) (by simp [opened, Event.isGroup]) .nil
  have same := (reading_doubled_semicolon cut parses place rfl ends around).1 (by decide)
  have text : Token.source front ++ ';' :: ';' :: Token.source back =
      "a\x7b--b:(;);;d:e\x7d".toList := by decide +kernel
  rw [text] at same
  exact ⟨cut, parses, same⟩

/-- In an at-rule block the second semicolon stands for the name of a declaration without a
colon. -/
theorem doubled_semicolon_atRule :
    let tokens : List Token :=
      [⟨.atKeyword, "@x".toList⟩, leftBrace, ⟨.ident, ['a']⟩, colon, ⟨.ident, ['b']⟩, semicolon,
        ⟨.ident, ['c']⟩, colon, ⟨.ident, ['d']⟩, rightBrace]
    Lexer.tokens "@x\x7ba:b;c:d\x7d".toList = .ok tokens ∧
      (Reading.ofText "@x\x7ba:b;c:d\x7d".toList false).error = none ∧
      (∃ t ∈ trace false ⟨tokens, []⟩, t.event = .declaration ['a'] [⟨.ident, ['b']⟩] ∧
        t.ending = tokens.drop 5) ∧
      (Reading.ofText "@x\x7ba:b;;c:d\x7d".toList false).error =
        some ⟨.missingColon, ⟨1, 9⟩⟩ ∧
      (Reading.ofText "@x\x7ba:b;;c:d\x7d".toList false).events ≠
        (Reading.ofText "@x\x7ba:b;c:d\x7d".toList false).events := by
  decide +kernel

end UtilityCss
