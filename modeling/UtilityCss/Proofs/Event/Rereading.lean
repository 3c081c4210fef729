import UtilityCss.Proofs.Event.Styles
import UtilityCss.Proofs.Text.Trim

/-!
Reading undoes writing. The tokens of a well-formed tree read as its events: every item of the tree
is met where it begins and scanned up to the mark it was written with, its values come out as they
went in, and what stands after it is read as if the item had not been there.
-/
namespace UtilityCss
open UtilityCss.Token
namespace Parser

theorem addValue_of_fits {found : List Token} {token : Token} (solid : token.kind ≠ .comment)
    (apart : ∀ last ∈ found.head?, last.isWhitespace = false ∨ token.isWhitespace = false) :
    addValue found token = token :: found := by
  rw [addValue, if_neg solid]
  cases found with
  | nil => simp
  | cons last rest =>
      obtain last | space := apart last rfl
      · simp [last]
      · simp [space]

theorem foldl_addValue_of_fits {tokens found : List Token}
    (comments : ∀ token ∈ tokens, token.kind ≠ .comment)
    (spaces : tokens.IsChain fun left right =>
      left.isWhitespace = false ∨ right.isWhitespace = false)
    (apart : ∀ last ∈ found.head?, ∀ first ∈ tokens.head?,
      last.isWhitespace = false ∨ first.isWhitespace = false) :
    tokens.foldl addValue found = tokens.reverse ++ found := by
  induction tokens generalizing found with
  | nil => rfl
  | cons token rest ih =>
      obtain ⟨solid, others⟩ := List.forall_mem_cons.mp comments
      obtain ⟨next, chain⟩ := List.isChain_cons.mp spaces
      rw [List.foldl_cons, addValue_of_fits solid fun last h => apart last h token rfl,
        ih others chain (by simpa using next)]
      simp

end Parser

open UtilityCss.Parser

theorem Settled.foldl_addValue {barred : Kind → Bool} {tokens : List Token}
    (h : Settled barred tokens) : tokens.foldl addValue [] = tokens.reverse := by
  rw [foldl_addValue_of_fits h.comments h.spaces (by simp), List.append_nil]

theorem dropWhile_isWhitespace {tokens : List Token} (h : StartsSolid tokens) :
    tokens.dropWhile (·.isWhitespace) = tokens := by
  cases tokens with
  | nil => rfl
  | cons token rest => simp [h token rfl]

theorem EndsSolid.reverse {tokens : List Token} (h : EndsSolid tokens) :
    StartsSolid tokens.reverse := by
  intro token first
  exact h token (by simpa using first)

theorem trimWhitespace_eq_self {tokens : List Token} (starts : StartsSolid tokens)
    (ends : EndsSolid tokens) : trimWhitespace tokens = tokens := by
  rw [trimWhitespace, dropWhile_isWhitespace starts, dropWhile_isWhitespace ends.reverse,
    List.reverse_reverse]

namespace Settled
variable {barred : Kind → Bool} {tokens : List Token}

theorem atRuleValues (h : Settled barred tokens) (ends : EndsSolid tokens) :
    Parser.atRuleValues tokens = tokens := by
  rw [Parser.atRuleValues, h.foldl_addValue, dropWhile_isWhitespace ends.reverse,
    List.reverse_reverse]

theorem trimmedValues (h : Settled barred tokens) (starts : StartsSolid tokens)
    (ends : EndsSolid tokens) : Parser.trimmedValues tokens = tokens := by
  rw [Parser.trimmedValues, values, h.foldl_addValue, List.reverse_reverse,
    trimWhitespace_eq_self starts ends]

end Settled

theorem endsValues_of_endsSelector {kind : Kind} (h : endsSelector kind = false) :
    endsValues kind = false := by
  simp only [endsSelector, Bool.or_eq_false_iff] at h
  exact h.1

theorem isStop_of_endsValues {kind : Kind} (h : endsValues kind = false) : isStop kind = false := by
  simp only [endsValues, Bool.or_eq_false_iff] at h
  exact h.1

theorem Settled.scan {barred : Kind → Bool} {tokens : List Token} (h : Settled barred tokens)
    (bars : ∀ kind, barred kind = false → isStop kind = false) {mark : Token} {stop : Stop}
    (ends : Stop.ofKind? mark.kind = some stop) (rest : List Token) :
    Item.scan (tokens ++ mark :: rest) = ⟨tokens, stop, mark :: rest⟩ :=
  Item.scan_append_stop (clear_mono bars h.clear) h.closed ends

namespace Parser

def isComma (kind : Kind) : Bool :=
  kind == .comma

theorem splitGroupsFrom_append {depth : Nat} {part xs : List Token} {found : List (List Token)}
    (clear : Clear isComma depth xs) (ys : List Token) :
    splitGroupsFrom depth part found (xs ++ ys) =
      splitGroupsFrom (depthAfter depth xs) (xs.reverse ++ part) found ys := by
  induction xs generalizing depth part with
  | nil => rfl
  | cons token rest ih =>
      have within : ¬(depth = 0 ∧ token.kind = .comma) := by
        rintro ⟨top, comma⟩
        have := clear.1 top
        simp [isComma, comma] at this
      rw [List.cons_append, splitGroupsFrom, if_neg within, ih clear.2]
      simp [depthAfter]

/-- Groups that hold no comma of their own come apart again. -/
theorem splitGroupsFrom_commaJoined {groups : List (List Token)} (filled : groups ≠ [])
    (apart : ∀ group ∈ groups, Clear isComma 0 group ∧ depthAfter 0 group = 0)
    (found : List (List Token)) :
    splitGroupsFrom 0 [] found (commaJoined groups) = found.reverse ++ groups := by
  induction groups generalizing found with
  | nil => exact absurd rfl filled
  | cons group rest ih =>
      obtain ⟨⟨clear, closed⟩, others⟩ := List.forall_mem_cons.mp apart
      by_cases last : rest = []
      · subst last
        have whole := @splitGroupsFrom_append 0 [] group found clear []
        rw [List.append_nil, closed] at whole
        simp [commaJoined, whole, splitGroupsFrom]
      · rw [commaJoined_cons last, splitGroupsFrom_append clear, closed, splitGroupsFrom,
          if_pos ⟨rfl, rfl⟩, ih last others]
        simp

theorem splitGroups_commaJoined {groups : List (List Token)} (filled : groups ≠ [])
    (selectors : ∀ group ∈ groups, IsSelector group) :
    splitGroups (commaJoined groups) = groups := by
  have comma (kind : Kind) (h : endsSelector kind = false) : isComma kind = false :=
    (Bool.or_eq_false_iff.mp h).2
  have apart (group : List Token) (inside : group ∈ groups) :
      Clear isComma 0 group ∧ depthAfter 0 group = 0 :=
    have settled := (selectors group inside).settled
    ⟨clear_mono comma settled.clear, settled.closed⟩
  rw [splitGroups, splitGroupsFrom_commaJoined filled apart]
  rfl

theorem map_trimmedValues_eq_self {groups : List (List Token)}
    (selectors : ∀ group ∈ groups, IsSelector group) : groups.map trimmedValues = groups := by
  have same (group : List Token) (inside : group ∈ groups) : trimmedValues group = group :=
    have selector := selectors group inside
    selector.settled.trimmedValues selector.starts selector.ends
  rw [List.map_congr_left same, List.map_id']

/-- A selector list is scanned as a whole, commas included. -/
theorem commaJoined_clear {groups : List (List Token)}
    (selectors : ∀ group ∈ groups, IsSelector group) :
    Clear endsValues 0 (commaJoined groups) ∧ depthAfter 0 (commaJoined groups) = 0 := by
  induction groups with
  | nil => exact ⟨trivial, rfl⟩
  | cons group rest ih =>
      obtain ⟨⟨⟨_, _, clear, closed⟩, _, _, _⟩, others⟩ := List.forall_mem_cons.mp selectors
      have clear : Clear endsValues 0 group :=
        clear_mono (fun _ => endsValues_of_endsSelector) clear
      by_cases last : rest = []
      · subst last
        exact ⟨clear, closed⟩
      · obtain ⟨restClear, restClosed⟩ := ih others
        rw [commaJoined_cons last, clear_append, depthAfter_append, closed]
        exact ⟨⟨clear, fun _ => rfl, restClear⟩, restClosed⟩

/-- The first token of a selector list. -/
theorem commaJoined_head {groups : List (List Token)} (filled : groups ≠ [])
    (selectors : ∀ group ∈ groups, IsSelector group) :
    ∃ token rest, commaJoined groups = token :: rest ∧ token.isWhitespace = false ∧
      token.kind ≠ .comment ∧ endsSelector token.kind = false := by
  match groups with
  | [] => exact absurd rfl filled
  | [] :: _ => exact absurd rfl (selectors [] List.mem_cons_self).filled
  | (token :: rest) :: others =>
      have selector := selectors (token :: rest) List.mem_cons_self
      have first : token.isWhitespace = false ∧ token.kind ≠ .comment ∧
          endsSelector token.kind = false :=
        ⟨selector.starts token rfl, selector.settled.comments token List.mem_cons_self,
          selector.settled.clear.1 rfl⟩
      cases others with
      | nil => exact ⟨token, rest, rfl, first⟩
      | cons => exact ⟨token, _, rfl, first⟩

theorem selectorEvents_append (groups : List (List Token)) (last : List Token) :
    selectorEvents (groups ++ [last]) = groups.map .selectorGroup ++ [.beginRuleset last] := by
  induction groups with
  | nil => rfl
  | cons group rest ih =>
      have more : rest ++ [last] ≠ [] := by simp
      rw [List.cons_append, selectorEvents.eq_3 group _ more, ih]
      rfl

/-! What a step does where an item begins. -/

theorem step_of_solid {inline : Bool} {token : Token} {rest : List Token} {blocks : List Block}
    (solid : token.isWhitespace = false) (semicolon : token.kind ≠ .semicolon) :
    step inline ⟨token :: rest, blocks⟩ = itemStep inline token rest blocks := by
  simp [step, skipTrivial, solid, semicolon]

theorem step_statement {inline : Bool} (name : Text) {values more : List Token}
    {blocks : List Block} (settled : Settled endsValues values) (ends : EndsSolid values) :
    step inline ⟨⟨.atKeyword, name⟩ :: values ++ semicolon :: more, blocks⟩ =
      .yield [.atRule name values] ⟨more, blocks⟩ := by
  have item :=
    @Settled.scan _ _ settled (fun _ => isStop_of_endsValues) semicolon .semicolon rfl more
  rw [List.cons_append, step_of_solid rfl (by simp), itemStep]
  simp [atRule, item, settled.atRuleValues ends]

theorem step_block {inline : Bool} (name : Text) {values more : List Token}
    {blocks : List Block} (settled : Settled endsValues values) (ends : EndsSolid values) :
    step inline ⟨⟨.atKeyword, name⟩ :: values ++ leftBrace :: more, blocks⟩ =
      .yield [.beginAtRule name values] ⟨more, .atRule :: blocks⟩ := by
  have item :=
    @Settled.scan _ _ settled (fun _ => isStop_of_endsValues) leftBrace .leftBrace rfl more
  rw [List.cons_append, step_of_solid rfl (by simp), itemStep]
  simp [atRule, item, settled.atRuleValues ends]

theorem step_close {inline : Bool} {more : List Token} (block : Block) {blocks : List Block} :
    step inline ⟨rightBrace :: more, block :: blocks⟩ = .yield [block.ended] ⟨more, blocks⟩ := by
  rw [step_of_solid rfl (by simp [rightBrace])]
  rfl

theorem itemStep_plain {inline : Bool} {token : Token} {rest : List Token} {blocks : List Block}
    (comment : token.kind ≠ .comment) (brace : token.kind ≠ .rightBrace)
    (plain : token.kind ≠ .atKeyword ∧ token.kind ≠ .cdo ∧ token.kind ≠ .cdc) :
    itemStep inline token rest blocks =
      if isDeclaration inline blocks (token :: rest) then declaration token rest blocks
      else prelude (token :: rest) blocks := by
  obtain ⟨kind, text⟩ := token
  cases kind <;> first | rfl | simp_all

theorem step_ruleset {inline : Bool} {groups : List (List Token)} {last more : List Token}
    {blocks : List Block} (place : blocks.head? ≠ some .ruleset)
    (top : blocks.head? = none → inline = false)
    (selectors : ∀ group ∈ groups ++ [last], IsSelector group)
    (plain : ∀ token ∈ (commaJoined (groups ++ [last])).head?,
      token.kind ≠ .atKeyword ∧ token.kind ≠ .cdo ∧ token.kind ≠ .cdc) :
    step inline ⟨commaJoined (groups ++ [last]) ++ leftBrace :: more, blocks⟩ =
      .yield (groups.map .selectorGroup ++ [.beginRuleset last]) ⟨more, .ruleset :: blocks⟩ := by
  have filled : groups ++ [last] ≠ [] := by simp
  obtain ⟨clear, closed⟩ := commaJoined_clear selectors
  have item : Item.scan (commaJoined (groups ++ [last]) ++ leftBrace :: more) =
      ⟨commaJoined (groups ++ [last]), .leftBrace, leftBrace :: more⟩ :=
    Item.scan_append_stop (clear_mono (fun _ => isStop_of_endsValues) clear) closed rfl
  have read : prelude (commaJoined (groups ++ [last]) ++ leftBrace :: more) blocks =
      .yield (groups.map .selectorGroup ++ [.beginRuleset last]) ⟨more, .ruleset :: blocks⟩ := by
    have full : (groups ++ [last]).any (·.isEmpty) = false := by
      rw [List.any_eq_false]
      exact fun group inside => by simpa using (selectors group inside).filled
    simp only [prelude, item, splitGroups_commaJoined filled selectors,
      map_trimmedValues_eq_self selectors, full, selectorEvents_append]
    rfl
  obtain ⟨token, rest, joined, solid, comment, ends⟩ := commaJoined_head filled selectors
  rw [joined] at plain item read ⊢
  rw [List.cons_append] at item read ⊢
  have kinds : token.kind ≠ .semicolon ∧ token.kind ≠ .rightBrace := by
    constructor <;> intro kind <;> rw [kind] at ends <;> cases ends
  have selecting : isDeclaration inline blocks (token :: (rest ++ leftBrace :: more)) = false := by
    cases blocks with
    | nil => exact top rfl
    | cons block blocks =>
        cases block with
        | ruleset => exact absurd rfl place
        | atRule => simp [isDeclaration, item]
  rw [step_of_solid solid kinds.1, itemStep_plain comment kinds.2 (plain token rfl), selecting]
  exact read

/-- An item that begins with a name and a colon and ends with a semicolon. -/
theorem step_named {inline : Bool} (name : Text) {value more : List Token} {blocks : List Block}
    (top : blocks.head? = none → inline = true) (clear : Clear endsValues 0 value)
    (closed : depthAfter 0 value = 0) :
    step inline ⟨⟨.ident, name⟩ :: colon :: value ++ semicolon :: more, blocks⟩ =
      .yield [declarationEvent ⟨.ident, name⟩ value] ⟨more, blocks⟩ := by
  have stops : Clear isStop 0 value := clear_mono (fun _ => isStop_of_endsValues) clear
  have item : Item.scan (value ++ semicolon :: more) = ⟨value, .semicolon, semicolon :: more⟩ :=
    Item.scan_append_stop stops closed rfl
  have whole : Item.scan (⟨.ident, name⟩ :: colon :: value ++ semicolon :: more) =
      ⟨⟨.ident, name⟩ :: colon :: value, .semicolon, semicolon :: more⟩ :=
    Item.scan_append_stop ⟨fun _ => rfl, fun _ => rfl, stops⟩ closed rfl
  have declares : isDeclaration inline blocks
      (⟨.ident, name⟩ :: (colon :: value ++ semicolon :: more)) = true := by
    cases blocks with
    | nil => exact top rfl
    | cons block blocks =>
        cases block with
        | ruleset => rfl
        | atRule =>
            rw [isDeclaration, ← List.cons_append, whole]
            rfl
  rw [List.cons_append, step_of_solid rfl (by simp), itemStep_plain (by simp) (by simp) (by simp),
    declares, if_pos rfl]
  simp [declaration, skipTrivial, colon, isWhitespace, item]

theorem declarationEvent_of_settled {barred : Kind → Bool} {name : Text} {values : List Token}
    (named : ['-', '-'].isPrefixOf name = false) (settled : Settled barred values)
    (starts : StartsSolid values) (ends : EndsSolid values) :
    declarationEvent ⟨.ident, name⟩ values = .declaration name values := by
  rw [declarationEvent, isCustomName, named, settled.trimmedValues starts ends]
  rfl

theorem declarationEvent_of_custom {name raw : Text} {value : List Token}
    (named : ['-', '-'].isPrefixOf name = true) (cut : Lexer.tokens raw = .ok value)
    (ends : ∀ c ∈ raw.getLast?, Text.isBlank c = false) :
    declarationEvent ⟨.ident, name⟩ value = .customProperty name raw := by
  rw [declarationEvent, isCustomName, named, (Lexer.tokens_eq_ok_iff.mp cut).source,
    Text.trimEnd_eq_self ends]
  rfl

end Parser

namespace Styles

/-- What stands after a tree is read where the tree ends. -/
theorem run {inline : Bool} (styles : Styles) {blocks : List Block}
    (wellFormed : styles.WellFormed inline blocks.head?) {more : List Token} {events : List Event}
    {stop : Option (SyntaxFault × List Token)} (after : Run inline ⟨more, blocks⟩ events stop) :
    Run inline ⟨styles.tokens ++ more, blocks⟩ (styles.events ++ events) stop := by
  induction styles generalizing blocks more events with
  | nil => exact after
  | statement name values others ih =>
      obtain ⟨settled, ends, rest⟩ := wellFormed
      have next := Run.yield (step_statement name settled ends) (ih rest after)
      simpa [tokens, Styles.events] using next
  | block name values body others bodyIh ih =>
      obtain ⟨settled, ends, inside, rest⟩ := wellFormed
      have closed := Run.yield (step_close .atRule) (ih rest after)
      have next :=
        Run.yield (step_block name settled ends) (@bodyIh (.atRule :: blocks) inside _ _ closed)
      simpa [tokens, Styles.events, Block.ended] using next
  | ruleset groups last body others bodyIh ih =>
      obtain ⟨⟨place, top⟩, selectors, plain, inside, rest⟩ := wellFormed
      have closed := Run.yield (step_close .ruleset) (ih rest after)
      have next := Run.yield (step_ruleset place top selectors plain)
        (@bodyIh (.ruleset :: blocks) inside _ _ closed)
      simpa [tokens, Styles.events, Block.ended] using next
  | declaration name values others ih =>
      obtain ⟨top, named, settled, starts, ends, rest⟩ := wellFormed
      have next := Run.yield (step_named name top settled.clear settled.closed) (ih rest after)
      rw [declarationEvent_of_settled named settled starts ends] at next
      simpa [tokens, Styles.events] using next
  | customProperty name raw others ih =>
      obtain ⟨top, named, ⟨value, cut, clear, closed⟩, ends, rest⟩ := wellFormed
      have next := Run.yield (step_named name top clear closed) (ih rest after)
      rw [declarationEvent_of_custom named cut ends] at next
      have written : Lexer.rawTokens raw = value := Lexer.rawTokens_of_ok cut
      simpa [tokens, Styles.events, written] using next

end Styles

/-- Reading undoes writing: a well-formed tree whose text is cut into the tokens it is written as
reads as its events, without an error. -/
theorem reading_styles {inline : Bool} {styles : Styles}
    (wellFormed : styles.WellFormed inline none)
    (cut : Lexer.tokens styles.text = .ok styles.tokens) :
    Reading.ofText styles.text inline = ⟨styles.events, none⟩ := by
  obtain ⟨stop, hrun, hstop⟩ := Reading.ofText_run cut inline
  have ended : Run inline ⟨[], []⟩ [] none := .done rfl
  have whole := styles.run wellFormed ended
  rw [List.append_nil, List.append_nil] at whole
  obtain ⟨events, noStop⟩ := hrun.unique whole
  exact congrArg₂ Reading.mk events (hstop.mpr noStop)

/-- Blocks in blocks, a selector list, a custom property that hides a semicolon, and a statement. -/
theorem reading_nestedStyles :
    let space : Token := ⟨.whitespace, [' ']⟩
    let a : Token := ⟨.ident, ['a']⟩
    let b : Token := ⟨.ident, ['b']⟩
    let styles : Styles :=
      .block "@media".toList [space, a]
        (.ruleset [[a, space, b]] [b]
          (.customProperty "--c".toList "[;]".toList (.declaration ['d'] [a, space, b] .nil)) .nil)
        (.statement "@layer".toList [space, b] .nil)
    styles.WellFormed false none ∧ Lexer.tokens styles.text = .ok styles.tokens ∧
      Reading.ofText styles.text false = ⟨styles.events, none⟩ := by
  intro space a b styles
  have wellFormed : styles.WellFormed false none := by
    refine ⟨by decide, by decide, ⟨by decide, by decide, by decide, ?_, trivial⟩, by decide,
      by decide, trivial⟩
    refine ⟨by decide, by decide, ?value, ?ends, by decide, by decide, by decide, by decide,
      by decide, trivial⟩
    case value =>
      exact ⟨[⟨.leftBracket, ['[']⟩, ⟨.semicolon, [';']⟩, ⟨.rightBracket, [']']⟩],
        by decide +kernel, by decide, by decide⟩
    case ends =>
      rintro _ ⟨⟩
      rfl
  have cut : Lexer.tokens styles.text = .ok styles.tokens := by decide +kernel
  exact ⟨wellFormed, cut, reading_styles wellFormed cut⟩
end UtilityCss
