import UtilityCss.Proofs.Event.Unclosed

/-!
Rulesets as inline sources. What an item is depends on the innermost block alone, and a ruleset
holds what an inline source does. So a list of declarations reads in the body of a ruleset as it
does by itself; the brace at its end closes what the list has left open, and the end of the source
the rest.
-/
namespace UtilityCss
open UtilityCss.Token
namespace Parser

/-- A step with other blocks around those that it knows. -/
def Step.within (outer : List Block) : Step → Step
  | .yield events next => .yield events ⟨next.rest, next.blocks ++ outer⟩
  | .done => .done
  | .stuck fault rest => .stuck fault rest

section Body
variable (inline : Bool) (blocks outer : List Block)

theorem atRule_within (name : Token) (rest : List Token) :
    atRule name rest (blocks ++ outer) = (atRule name rest blocks).within outer := by
  simp only [atRule]
  split <;> rfl

theorem prelude_within (tokens : List Token) :
    prelude tokens (blocks ++ outer) = (prelude tokens blocks).within outer := by
  simp only [prelude]
  split
  · rfl
  split <;> rfl

theorem declaration_within (name : Token) (rest : List Token) :
    declaration name rest (blocks ++ outer) = (declaration name rest blocks).within outer := by
  simp only [declaration]
  split
  next => split <;> rfl
  next => rfl

/-- A ruleset holds what an inline source holds. -/
theorem onlyDeclarations_body :
    onlyDeclarations inline (blocks ++ .ruleset :: outer) = onlyDeclarations true blocks := by
  cases blocks with
  | nil => rfl
  | cons block blocks => cases block <;> rfl

theorem isDeclaration_body (tokens : List Token) :
    isDeclaration inline (blocks ++ .ruleset :: outer) tokens =
      isDeclaration true blocks tokens := by
  cases blocks with
  | nil => rfl
  | cons block blocks => cases block <;> rfl

variable {blocks} {events : List Event} {next : State}

theorem itemStep_body {token : Token} {rest : List Token}
    (h : itemStep true token rest blocks = .yield events next) :
    itemStep inline token rest (blocks ++ .ruleset :: outer) =
      .yield events ⟨next.rest, next.blocks ++ .ruleset :: outer⟩ := by
  simp only [itemStep] at h ⊢
  split at h
  case h_1 | h_2 | h_3 =>
    cases h
    rfl
  case h_4 =>
    cases blocks with
    | nil => cases h
    | cons block blocks =>
        cases h
        rfl
  case h_5 =>
    rw [atRule_within, h]
    rfl
  case h_6 =>
    rw [isDeclaration_body]
    split at h
    next declared =>
      rw [if_pos declared, declaration_within, h]
      rfl
    next ruled =>
      rw [if_neg ruled, prelude_within, h]
      rfl

/-- Within a ruleset every item of an inline source is read as it is there. -/
theorem step_body {s : State} (h : step true s = .yield events next) :
    step inline ⟨s.rest, s.blocks ++ .ruleset :: outer⟩ =
      .yield events ⟨next.rest, next.blocks ++ .ruleset :: outer⟩ := by
  simp only [step, onlyDeclarations_body] at h ⊢
  split at h
  · cases blocks : s.blocks with
    | nil => simp [blocks, closeAll] at h
    | cons block blocks' =>
        rw [blocks] at h
        cases h
        rfl
  · exact itemStep_body inline outer h

end Body

/-- An inline source reads as a ruleset body by itself, up to the end of the ruleset. -/
theorem Run.body {s : State} {events : List Event} (run : Run true s events none) (inline : Bool) :
    Run inline ⟨s.rest, s.blocks ++ [.ruleset]⟩ (events ++ [.endRuleset]) none ∧
      trace inline ⟨s.rest, s.blocks ++ [.ruleset]⟩ = trace true s ++ [⟨.endRuleset, []⟩] := by
  generalize whole : none = ended at run
  induction run with
  | stuck => cases whole
  | @done s h =>
      -- Where the inline source ends, the end closes the ruleset.
      have unread := unread_of_done h
      have blocks := blocks_of_done h
      rw [State.unread, blocks] at unread
      have step : step inline ⟨s.rest, s.blocks ++ [.ruleset]⟩ = .yield [.endRuleset] ⟨[], []⟩ := by
        rw [Parser.step, onlyDeclarations_body, blocks, unread]
        rfl
      have ends : Parser.step inline ⟨[], []⟩ = .done := rfl
      have nothing : trace inline ⟨[], []⟩ = [] := by rw [trace, ends]
      constructor
      · simpa using Run.yield step (.done ends)
      · rw [trace, step, trace, h]
        simp only [nothing, State.unread, onlyDeclarations_body, blocks, unread]
        rfl
  | @yield s next events more _ h run ih =>
      subst whole
      have step := step_body inline [] h
      obtain ⟨run', traced⟩ := ih rfl
      constructor
      · rw [List.append_assoc]
        exact .yield step run'
      · rw [trace, step, trace, h]
        simp only [State.unread, onlyDeclarations_body, traced, List.append_assoc]

end Parser

open UtilityCss.Parser UtilityCss.Lexer

/-- A source of declarations reads in the body of a ruleset as it does inline. -/
theorem reading_ruleset_body {source : Text} {tokens : List Token}
    (cut : Lexer.tokens source = .ok tokens) (parses : (Reading.ofText source true).error = none)
    (shut : ∀ t ∈ trace true ⟨tokens, []⟩, t.Shut) {name : Text}
    (cut' : Lexer.tokens ('.' :: name ++ '\x7b' :: source ++ ['\x7d']) =
      .ok ([delim '.', ⟨.ident, name⟩, leftBrace] ++ tokens ++ [rightBrace])) :
    Reading.ofText ('.' :: name ++ '\x7b' :: source ++ ['\x7d']) false =
      ⟨.beginRuleset [delim '.', ⟨.ident, name⟩] ::
        (Reading.ofText source true).events ++ [.endRuleset], none⟩ := by
  obtain ⟨body, traced⟩ := (Reading.run_of_parses cut parses).body false
  simp only [List.nil_append] at body traced
  have shut' : ∀ t ∈ trace false ⟨tokens, [.ruleset]⟩, t.Shut := by
    rw [traced, List.forall_mem_append]
    exact ⟨shut, by decide⟩
  have left : 1 ≤ unclosed false ⟨tokens, [.ruleset]⟩ := by
    rw [unclosed, traced, List.countP_append]
    exact Nat.le_add_left 1 _
  have opens : step false ⟨[delim '.', ⟨.ident, name⟩, leftBrace] ++ (tokens ++ [rightBrace]), []⟩ =
      .yield [.beginRuleset [delim '.', ⟨.ident, name⟩]] ⟨tokens ++ [rightBrace], [.ruleset]⟩ := rfl
  have closed := body.closing shut' left
  rw [List.append_assoc [delim '.', _, _]] at cut'
  exact Reading.ofText_eq cut' (.yield opens closed)

theorem ruleset_body_media :
    Reading.ofText ".x\x7b@media print\x7bb:c\x7d".toList false =
      ⟨.beginRuleset [delim '.', ⟨.ident, ['x']⟩] ::
        (Reading.ofText "@media print\x7bb:c".toList true).events ++ [.endRuleset], none⟩ :=
  @reading_ruleset_body "@media print\x7bb:c".toList
    [⟨.atKeyword, "@media".toList⟩, ⟨.whitespace, " ".toList⟩, ⟨.ident, "print".toList⟩, leftBrace,
      ⟨.ident, ['b']⟩, colon, ⟨.ident, ['c']⟩]
    (by decide +kernel) (by decide +kernel) (by decide +kernel) ['x'] (by decide +kernel)

end UtilityCss
