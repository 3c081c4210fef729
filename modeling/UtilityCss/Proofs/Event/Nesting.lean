import UtilityCss.Proofs.Event.Run
import UtilityCss.Proofs.Event.Word

/-!
Every step of the parser hands out a nested word that leads from its open blocks to those of the
next state, and it comes to an end only with none open. So whatever a source holds, its events are
a well-nested word up to the ends of the blocks that an error left open.
-/
namespace UtilityCss
namespace Parser

/-- The blocks that admit rulesets are those in which the parser does not insist on declarations. -/
theorem fits_of_not_onlyDeclarations {inline : Bool} {blocks : List Block}
    (h : onlyDeclarations inline blocks = false) :
    blocks.head? ≠ some .ruleset ∧ (blocks.head? = none → inline = false) := by
  cases blocks with
  | nil => exact ⟨by simp, fun _ => h⟩
  | cons block blocks => cases block <;> simp_all [onlyDeclarations]

theorem not_onlyDeclarations_of_prelude {inline : Bool} {blocks : List Block}
    {tokens : List Token} (h : isDeclaration inline blocks tokens = false) :
    onlyDeclarations inline blocks = false := by
  cases blocks with
  | nil => exact h
  | cons block blocks => cases block <;> first | rfl | cases h

theorem fits_of_isDeclaration {inline : Bool} {blocks : List Block} {tokens : List Token}
    (h : isDeclaration inline blocks tokens = true) : blocks.head? = none → inline = true := by
  cases blocks with
  | nil => exact fun _ => h
  | cons block blocks => simp

theorem splitGroupsFrom_ne_nil (depth : Nat) (part : List Token) (found : List (List Token))
    (tokens : List Token) : splitGroupsFrom depth part found tokens ≠ [] := by
  induction tokens generalizing depth part found with
  | nil => simp [splitGroupsFrom]
  | cons token rest ih =>
      simp only [splitGroupsFrom]
      split <;> exact ih _ _ _

theorem startsSelector_selectorEvents {groups : List (List Token)} (h : groups ≠ []) :
    Event.startsSelector (selectorEvents groups) = true := by
  match groups with
  | [last] => rfl
  | group :: next :: rest => rfl

theorem nested_selectorEvents {inline : Bool} {blocks : List Block} {groups : List (List Token)}
    (h : groups ≠ [])
    (fits : blocks.head? ≠ some .ruleset ∧ (blocks.head? = none → inline = false)) :
    Nested inline blocks (selectorEvents groups) (.ruleset :: blocks) := by
  match groups with
  | [last] => exact .single fits rfl
  | group :: next :: rest =>
      exact .cons fits (fun _ => startsSelector_selectorEvents (by simp))
        (nested_selectorEvents (by simp) fits)

theorem nested_ended (inline : Bool) (block : Block) (blocks : List Block) :
    Nested inline (block :: blocks) [block.ended] blocks := by
  cases block
  · exact .single (e := .endAtRule) rfl rfl
  · exact .single (e := .endRuleset) rfl rfl

theorem atRule_nested {inline : Bool} {name : Token} {rest : List Token} {blocks : List Block}
    {events : List Event} {next : State} (h : atRule name rest blocks = .yield events next) :
    Nested inline blocks events next.blocks := by
  simp only [atRule] at h
  split at h <;> cases h
  · exact .single (e := .beginAtRule _ _) trivial rfl
  · exact .single (e := .atRule _ _) trivial rfl
  all_goals exact .single (e := .atRule _ _) trivial rfl

theorem prelude_nested {inline : Bool} {tokens : List Token} {blocks : List Block}
    {events : List Event} {next : State} (hd : onlyDeclarations inline blocks = false)
    (h : prelude tokens blocks = .yield events next) :
    Nested inline blocks events next.blocks := by
  simp only [prelude] at h
  split at h
  · cases h
  · split at h
    · cases h
    · cases h
      have groups : (splitGroups (Item.scan tokens).tokens).map trimmedValues ≠ [] := by
        simpa [splitGroups] using splitGroupsFrom_ne_nil 0 [] [] (Item.scan tokens).tokens
      exact nested_selectorEvents groups (fits_of_not_onlyDeclarations hd)

theorem nested_declarationEvent {inline : Bool} {blocks : List Block} (name : Token)
    (tokens : List Token) (fits : blocks.head? = none → inline = true) :
    Nested inline blocks [declarationEvent name tokens] blocks := by
  rw [declarationEvent]
  split
  · exact .single (e := .customProperty _ _) fits rfl
  · exact .single (e := .declaration _ _) fits rfl

theorem declaration_nested {inline : Bool} {name : Token} {rest : List Token}
    {blocks : List Block} {events : List Event} {next : State}
    (fits : blocks.head? = none → inline = true)
    (h : declaration name rest blocks = .yield events next) :
    Nested inline blocks events next.blocks := by
  simp only [declaration] at h
  split at h
  · split at h <;> cases h
    all_goals exact nested_declarationEvent name _ fits
  · cases h

theorem closeBlock_nested {inline : Bool} {brace : Token} {rest : List Token}
    {blocks : List Block} {events : List Event} {next : State}
    (h : closeBlock brace rest blocks = .yield events next) :
    Nested inline blocks events next.blocks := by
  cases blocks with
  | nil => cases h
  | cons block blocks =>
      cases h
      exact nested_ended inline block blocks

theorem itemStep_nested {inline : Bool} {token : Token} {rest : List Token}
    {blocks : List Block} {events : List Event} {next : State}
    (h : itemStep inline token rest blocks = .yield events next) :
    Nested inline blocks events next.blocks := by
  simp only [itemStep] at h
  split at h
  case h_1 =>
    cases h
    exact .single (e := .comment _) trivial rfl
  case h_2 | h_3 =>
    cases h
    exact .single (e := .marker _) trivial rfl
  case h_4 => exact closeBlock_nested h
  case h_5 => exact atRule_nested h
  case h_6 =>
    split at h
    next hd => exact declaration_nested (fits_of_isDeclaration hd) h
    next hd => exact prelude_nested (not_onlyDeclarations_of_prelude (by simpa using hd)) h

theorem closeAll_nested {inline : Bool} {blocks : List Block} {events : List Event}
    {next : State} (h : closeAll blocks = .yield events next) :
    Nested inline blocks events next.blocks := by
  cases blocks with
  | nil => cases h
  | cons block blocks =>
      cases h
      exact nested_ended inline block blocks

theorem step_nested {inline : Bool} {s next : State} {events : List Event}
    (h : step inline s = .yield events next) :
    Nested inline s.blocks events next.blocks := by
  simp only [step] at h
  split at h
  · exact closeAll_nested h
  · exact itemStep_nested h

theorem itemStep_ne_done (inline : Bool) (token : Token) (rest : List Token)
    (blocks : List Block) : itemStep inline token rest blocks ≠ .done := by
  simp only [itemStep]
  split
  case h_1 | h_2 | h_3 => simp
  case h_4 => cases blocks <;> simp [closeBlock]
  case h_5 =>
    simp only [atRule]
    split <;> simp
  case h_6 =>
    split
    · simp only [declaration]
      split
      · split <;> simp
      · simp
    · simp only [prelude]
      split
      · simp
      · split <;> simp

theorem blocks_of_done {inline : Bool} {s : State} (h : step inline s = .done) :
    s.blocks = [] := by
  simp only [step] at h
  split at h
  · cases hb : s.blocks with
    | nil => rfl
    | cons block blocks => simp [hb, closeAll] at h
  · exact absurd h (itemStep_ne_done _ _ _ _)

theorem Run.nested {inline : Bool} {s : State} {events : List Event}
    {stop : Option (SyntaxFault × List Token)} (h : Run inline s events stop) :
    ∃ blocks, Nested inline s.blocks events blocks ∧ (stop = none → blocks = []) := by
  induction h with
  | done h => exact ⟨_, .nil, fun _ => blocks_of_done h⟩
  | stuck h => exact ⟨_, .nil, by simp⟩
  | yield h _ ih =>
      obtain ⟨blocks, nested, closed⟩ := ih
      exact ⟨blocks, (step_nested h).append nested, closed⟩

end Parser

theorem Reading.nested (source : Text) (inline : Bool) :
    ∃ blocks, Nested inline [] (Reading.ofText source inline).events blocks ∧
      ((Reading.ofText source inline).error = none → blocks = []) := by
  rcases Reading.ofText_cases source inline with ⟨hevents, herror⟩ | ⟨_, _, _, hrun, hstop⟩
  · exact ⟨[], by rw [hevents]; exact .nil, fun _ => rfl⟩
  · obtain ⟨blocks, nested, closed⟩ := hrun.nested
    exact ⟨blocks, nested, fun h => closed (hstop.mp h)⟩

/-- Whatever a source holds, every event fits the blocks open before it, and the word lacks nothing
but the ends of the blocks that are open at its end. Without an error none are. -/
theorem reading_wellNested (source : Text) (inline : Bool) :
    ∃ blocks : List Parser.Block,
      Nested inline [] (Reading.ofText source inline).events blocks ∧
      WellNested inline
        ((Reading.ofText source inline).events ++ blocks.map Parser.Block.ended) ∧
      ((Reading.ofText source inline).error = none → blocks = []) := by
  obtain ⟨blocks, nested, closed⟩ := Reading.nested source inline
  exact ⟨blocks, nested, nested.wellNested, closed⟩

end UtilityCss
