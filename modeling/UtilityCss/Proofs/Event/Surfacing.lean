import Mathlib.Data.List.DropRight
import UtilityCss.Proofs.Event.Rereading
import UtilityCss.Proofs.Event.Written

/-!
Which at-rules come up where tokens are read. Barred names that stand in values stay there: an item
ends at a semicolon or brace outside of all groups, and values that hold none of these hold none
either when more groups are open in front of them. So a barred name comes up only where a block
begins with it.
-/
namespace UtilityCss.Parser
open UtilityCss.Token

variable {barred : Text → Bool} {copied : Text → List Token → Prop}

def isBarred (barred : Text → Bool) (token : Token) : Bool :=
  token.kind == .atKeyword && barred token.text

/-- The kinds an item can begin with that goes on to a semicolon or brace. -/
def opensItem : Kind → Bool
  | .whitespace | .comment | .cdo | .cdc | .semicolon | .leftBrace | .rightBrace => false
  | _ => true

/-- Tokens among which a barred name can begin no item but a copied block. -/
inductive Quiet (barred : Text → Bool) (copied : Text → List Token → Prop) : List Token → Prop
  | nil : Quiet barred copied []
  | plain {token rest} : isBarred barred token = false → Quiet barred copied rest →
      Quiet barred copied (token :: rest)
  | item {first body last rest} : isBarred barred first = false → opensItem first.kind = true →
      Clear isStop 0 body → isStop last.kind = true → Quiet barred copied rest →
      Quiet barred copied (first :: (body ++ last :: rest))
  | block {name values rest} : Clear isStop 0 values → depthAfter 0 values = 0 →
      atRuleValues values = values → copied name values → Quiet barred copied rest →
      Quiet barred copied (⟨.atKeyword, name⟩ :: (values ++ leftBrace :: rest))

theorem nesting_mono (kind : Kind) {depth depth' : Nat} (h : depth ≤ depth') :
    kind.nesting depth ≤ kind.nesting depth' := by
  simp only [Kind.nesting]
  repeat' split
  all_goals omega

/-- What is clear stays clear when more groups are open in front of it. -/
theorem Clear.mono {barred : Kind → Bool} {depth depth' : Nat} {tokens : List Token}
    (h : Clear barred depth tokens) (deeper : depth ≤ depth') : Clear barred depth' tokens := by
  induction tokens generalizing depth depth' with
  | nil => trivial
  | cons token rest ih =>
      refine ⟨fun top => h.1 (by omega), ih h.2 (nesting_mono token.kind deeper)⟩

theorem isBarred_of_isStop {token : Token} (h : isStop token.kind = true) :
    isBarred barred token = false := by
  have kind : token.kind ≠ .atKeyword := by
    intro same
    rw [same] at h
    cases h
  simp [isBarred, kind]

/-- What is left is quiet wherever an item ends. -/
def LeavesQuiet (barred : Text → Bool) (copied : Text → List Token → Prop)
    (tokens : List Token) : Prop :=
  ∀ depth found, Quiet barred copied (Item.scanFrom depth found tokens).after

theorem leavesQuiet_cons {token : Token} {rest : List Token}
    (plain : isBarred barred token = false) (quiet : Quiet barred copied rest)
    (leaves : LeavesQuiet barred copied rest) : LeavesQuiet barred copied (token :: rest) := by
  intro depth found
  by_cases stops : depth = 0 ∧ isStop token.kind = true
  · obtain ⟨stop, ends⟩ := Option.isSome_iff_exists.mp stops.2
    have item :
        Item.scanFrom depth found (token :: rest) = ⟨found.reverse, stop, token :: rest⟩ := by
      simp [Item.scanFrom, stops.1, ends]
    rw [item, Item.after]
    cases stop with
    | semicolon | leftBrace => exact quiet
    | rightBrace | ending => exact .plain plain quiet
  · rw [Item.scanFrom_cons (by simpa using stops)]
    exact leaves _ _

theorem leavesQuiet_append {body rest : List Token} (clear : Clear isStop 0 body)
    (leaves : LeavesQuiet barred copied rest) : LeavesQuiet barred copied (body ++ rest) := by
  intro depth found
  rw [Item.scanFrom_append (clear.mono (Nat.zero_le depth))]
  exact leaves _ _

theorem isStop_of_opensItem {kind : Kind} (h : opensItem kind = true) : isStop kind = false := by
  cases kind <;> first | rfl | cases h

theorem Quiet.leavesQuiet {tokens : List Token} (h : Quiet barred copied tokens) :
    LeavesQuiet barred copied tokens := by
  induction h with
  | nil => exact fun _ _ => .nil
  | plain plain quiet ih => exact leavesQuiet_cons plain quiet ih
  | @item first body last rest _ opens clear stops quiet ih =>
      have whole : Clear isStop 0 (first :: body) :=
        ⟨fun _ => isStop_of_opensItem opens, clear.mono (Nat.zero_le _)⟩
      exact leavesQuiet_append whole (leavesQuiet_cons (isBarred_of_isStop stops) quiet ih)
  | @block name values rest clear _ _ _ quiet ih =>
      have whole : Clear isStop 0 (⟨.atKeyword, name⟩ :: values) := ⟨fun _ => rfl, clear⟩
      exact leavesQuiet_append whole (leavesQuiet_cons (isBarred_of_isStop rfl) quiet ih)

theorem Quiet.tail_leavesQuiet {token : Token} {rest : List Token}
    (h : Quiet barred copied (token :: rest)) : LeavesQuiet barred copied rest := by
  cases h with
  | plain _ quiet => exact quiet.leavesQuiet
  | item _ _ clear stops quiet | block clear _ _ _ quiet =>
      exact leavesQuiet_append clear
        (leavesQuiet_cons (isBarred_of_isStop (by first | exact stops | rfl)) quiet
          quiet.leavesQuiet)

theorem skipTrivial_eq_self {token : Token} (white : token.kind ≠ .whitespace)
    (semicolon : token.kind ≠ .semicolon) (semicolons : Bool) (rest : List Token) :
    skipTrivial semicolons (token :: rest) = token :: rest := by
  simp [skipTrivial, isWhitespace, white, semicolon]

theorem Quiet.skipTrivial {tokens : List Token} (h : Quiet barred copied tokens)
    (semicolons : Bool) : Quiet barred copied (skipTrivial semicolons tokens) := by
  induction h with
  | nil => exact .nil
  | plain plain quiet ih =>
      rw [Parser.skipTrivial, List.dropWhile_cons]
      split
      · exact ih
      · exact .plain plain quiet
  | @item first body last rest plain opens clear stops quiet _ =>
      have white : first.kind ≠ .whitespace := fun same => by simp [same, opensItem] at opens
      have semicolon : first.kind ≠ .semicolon := fun same => by simp [same, opensItem] at opens
      rw [skipTrivial_eq_self white semicolon]
      exact .item plain opens clear stops quiet
  | block clear closed trimmed copy quiet _ =>
      rw [skipTrivial_eq_self (by simp) (by simp)]
      exact .block clear closed trimmed copy quiet

/-- An event that is a barred at-rule only if it begins a copied block. -/
def Allowed (barred : Text → Bool) (copied : Text → List Token → Prop) : Event → Prop
  | .atRule name _ => barred name = false
  | .beginAtRule name values => barred name = true → copied name values
  | _ => True

theorem after_scanFrom (depth : Nat) (found tokens : List Token) :
    (Item.scanFrom depth found tokens).after = (Item.scanFrom depth [] tokens).after := by
  induction tokens generalizing depth found with
  | nil => rfl
  | cons token rest ih =>
      simp only [Item.scanFrom]
      split
      · rfl
      · rw [ih _ (token :: found), ih _ [token]]

theorem LeavesQuiet.of_cons {token : Token} {rest : List Token} (passes : isStop token.kind = false)
    (flat : ∀ depth, token.kind.nesting depth = depth)
    (h : LeavesQuiet barred copied (token :: rest)) : LeavesQuiet barred copied rest := by
  intro depth found
  have same := h depth found
  rw [Item.scanFrom_cons fun _ => passes, flat, after_scanFrom] at same
  rwa [after_scanFrom]

theorem LeavesQuiet.after_colon {rest more : List Token} {text : Text}
    (found : Parser.skipTrivial false rest = ⟨.colon, text⟩ :: more)
    (h : LeavesQuiet barred copied rest) : LeavesQuiet barred copied more := by
  induction rest with
  | nil => cases found
  | cons token rest ih =>
      rw [Parser.skipTrivial, List.dropWhile_cons] at found
      split at found
      next white =>
        have white : token.kind = .whitespace := by simpa [isWhitespace] using white
        exact ih found (h.of_cons (by rw [white]; rfl) (by rw [white]; exact fun _ => rfl))
      next =>
        cases found
        exact h.of_cons rfl fun _ => rfl

theorem allowed_declarationEvent (name : Token) (tokens : List Token) :
    Allowed barred copied (declarationEvent name tokens) := by
  rw [declarationEvent]
  split <;> trivial

theorem Quiet.tail {token : Token} {rest : List Token} (h : Quiet barred copied (token :: rest))
    (single : opensItem token.kind = false) : Quiet barred copied rest := by
  cases h with
  | plain _ quiet => exact quiet
  | item _ opens => simp [opens] at single
  | block => cases single

/-- An at-rule that is read where the tokens are quiet has no barred name, or begins a copied
block. -/
theorem Quiet.atKeyword {name : Text} {rest : List Token}
    (h : Quiet barred copied (⟨.atKeyword, name⟩ :: rest)) :
    barred name = false ∨ (Item.scan rest).stop = .leftBrace ∧
      copied name (atRuleValues (Item.scan rest).tokens) := by
  cases h with
  | plain plain | item plain => exact .inl (by simpa [isBarred] using plain)
  | @block _ values rest clear closed trimmed copy =>
      have item : Item.scan (values ++ leftBrace :: rest) =
          ⟨values, .leftBrace, leftBrace :: rest⟩ := Item.scan_append_stop clear closed rfl
      rw [item, trimmed]
      exact .inr ⟨rfl, copy⟩

theorem Reads.quiet {blocks : List Block} {unread : List Token} {events : List Event} {next : State}
    (h : Reads blocks unread events next) (quiet : Quiet barred copied unread) :
    Quiet barred copied next.rest ∧ ∀ e ∈ events, Allowed barred copied e := by
  have ended (block : Block) : Allowed barred copied block.ended := by cases block <;> trivial
  cases h with
  | ended => exact ⟨.nil, by simpa using ended _⟩
  | closed => exact ⟨quiet.tail rfl, by simpa using ended _⟩
  | comment => exact ⟨quiet.tail rfl, by simp [Allowed]⟩
  | marker kind => exact ⟨quiet.tail (by rcases kind with rfl | rfl <;> rfl), by simp [Allowed]⟩
  | atRule stop =>
      refine ⟨quiet.tail_leavesQuiet _ _, ?_⟩
      rw [List.forall_mem_singleton]
      exact quiet.atKeyword.resolve_right fun block => stop block.1
  | beginAtRule stop =>
      refine ⟨quiet.tail_leavesQuiet _ _, ?_⟩
      rw [List.forall_mem_singleton]
      intro name
      exact (quiet.atKeyword.resolve_left (by simp [name])).2
  | selectors stop groups full =>
      refine ⟨quiet.leavesQuiet _ _, fun e inside => ?_⟩
      obtain ⟨_, _, rfl | rfl⟩ := mem_selectorEvents inside <;> trivial
  | declaration _ found _ =>
      refine ⟨quiet.tail_leavesQuiet.after_colon found _ _, ?_⟩
      rw [List.forall_mem_singleton]
      exact allowed_declarationEvent _ _

theorem Run.allowed {inline : Bool} {s : State} {events : List Event}
    {stop : Option (SyntaxFault × List Token)} (h : Run inline s events stop)
    (quiet : Quiet barred copied s.rest) : ∀ e ∈ events, Allowed barred copied e := by
  induction h with
  | done | stuck => simp
  | @yield s next events more stop h _ ih =>
      have here : Quiet barred copied (s.unread inline) := quiet.skipTrivial _
      obtain ⟨rest, allowed⟩ := (step_reads h).quiet here
      rw [List.forall_mem_append]
      exact ⟨allowed, ih rest⟩

/-- Tokens that can be written in front of quiet ones. -/
def KeepsQuiet (barred : Text → Bool) (copied : Text → List Token → Prop)
    (tokens : List Token) : Prop :=
  ∀ rest, Quiet barred copied rest → Quiet barred copied (tokens ++ rest)

theorem KeepsQuiet.append {xs ys : List Token} (hx : KeepsQuiet barred copied xs)
    (hy : KeepsQuiet barred copied ys) : KeepsQuiet barred copied (xs ++ ys) := by
  intro rest quiet
  rw [List.append_assoc]
  exact hx _ (hy rest quiet)

theorem keepsQuiet_plain {tokens : List Token}
    (h : ∀ token ∈ tokens, isBarred barred token = false) : KeepsQuiet barred copied tokens := by
  intro rest quiet
  induction tokens with
  | nil => exact quiet
  | cons token tokens ih =>
      obtain ⟨plain, others⟩ := List.forall_mem_cons.mp h
      exact .plain plain (ih others)

theorem keepsQuiet_item {first last : Token} {body : List Token}
    (plain : isBarred barred first = false) (opens : opensItem first.kind = true)
    (clear : Clear isStop 0 body) (stops : isStop last.kind = true) :
    KeepsQuiet barred copied (first :: body ++ [last]) := by
  intro rest quiet
  simpa using Quiet.item plain opens clear stops quiet

theorem clear_atRuleValues (tokens : List Token) :
    Clear isStop 0 (atRuleValues (Item.scan tokens).tokens) := by
  rw [← clear_solid fun _ => isStop_trivia, solid_atRuleValues, clear_solid fun _ => isStop_trivia]
  exact (Item.scan_scanned tokens).clear

theorem clear_trimmedValues (tokens : List Token) :
    Clear isStop 0 (trimmedValues (Item.scan tokens).tokens) := by
  rw [← clear_solid fun _ => isStop_trivia, solid_trimmedValues, clear_solid fun _ => isStop_trivia]
  exact (Item.scan_scanned tokens).clear

theorem depthAfter_atRuleValues {tokens : List Token}
    (stop : (Item.scan tokens).stop = .leftBrace) :
    depthAfter 0 (atRuleValues (Item.scan tokens).tokens) = 0 := by
  rw [← depthAfter_solid, solid_atRuleValues, depthAfter_solid]
  obtain ⟨ending, _⟩ | ⟨closed, _⟩ := (Item.scan_scanned tokens).ended
  · rw [stop] at ending
    cases ending
  · exact closed

/-- Values as they are kept, newest first. -/
structure Gathered (found : List Token) : Prop where
  comments : ∀ token ∈ found, token.kind ≠ .comment
  spaces : found.IsChain fun left right => left.isWhitespace = false ∨ right.isWhitespace = false

theorem Gathered.addValue {found : List Token} (h : Gathered found) (token : Token) :
    Gathered (addValue found token) := by
  rw [Parser.addValue]
  split
  · exact h
  next solid =>
    split
    · exact h
    next apart =>
      refine ⟨List.forall_mem_cons.mpr ⟨solid, h.comments⟩, List.isChain_cons.mpr ⟨?_, h.spaces⟩⟩
      intro last first
      have first : found.head? = some last := first
      simp only [first, Option.map_some, Option.getD_some, Bool.and_eq_true, not_and,
        Bool.not_eq_true] at apart
      cases white : token.isWhitespace with
      | false => exact .inl rfl
      | true => exact .inr (apart white)

theorem Gathered.foldl {found : List Token} (h : Gathered found) (tokens : List Token) :
    Gathered (tokens.foldl Parser.addValue found) := by
  induction tokens generalizing found with
  | nil => exact h
  | cons token rest ih => exact ih (h.addValue token)

theorem Gathered.foldl_reverse {found : List Token} (h : Gathered found) :
    found.reverse.foldl Parser.addValue [] = found := by
  have spaces : found.reverse.IsChain fun left right =>
      left.isWhitespace = false ∨ right.isWhitespace = false := by
    rw [List.isChain_reverse]
    exact h.spaces.imp fun _ _ => Or.symm
  rw [foldl_addValue_of_fits (by simpa using h.comments) spaces (by simp)]
  simp

theorem atRuleValues_idem (tokens : List Token) :
    atRuleValues (atRuleValues tokens) = atRuleValues tokens := by
  have gathered : Gathered (tokens.foldl Parser.addValue []) :=
    (⟨nofun, .nil⟩ : Gathered []).foldl tokens
  have suffix := List.dropWhile_suffix (l := tokens.foldl Parser.addValue []) (·.isWhitespace)
  have kept : Gathered ((tokens.foldl Parser.addValue []).dropWhile (·.isWhitespace)) :=
    ⟨fun token inside => gathered.comments token (suffix.subset inside),
      gathered.spaces.suffix suffix⟩
  rw [atRuleValues, atRuleValues, kept.foldl_reverse, List.dropWhile_idempotent]

/-- The selector of an event, if it has one. -/
def selectorOf : Event → List Token
  | .selectorGroup selector | .beginRuleset selector => selector
  | _ => []

/-- What may be written of a source: no barred statement, no barred name in a selector, and no block
with a barred name but a copied one. -/
structure Writable (barred : Text → Bool) (copied : Text → List Token → Prop) (e : Event) :
    Prop where
  allowed : Allowed barred copied e
  selector : ∀ token ∈ selectorOf e, isBarred barred token = false

theorem isBarred_atKeyword {name : Text} : isBarred barred ⟨.atKeyword, name⟩ = barred name := by
  simp [isBarred]

theorem Reads.keepsQuiet {blocks : List Block} {unread : List Token} {events : List Event}
    {next : State} (h : Reads blocks unread events next) {e : Event} (inside : e ∈ events)
    (writable : Writable barred copied e) :
    KeepsQuiet barred copied (Traced.mk e unread).written := by
  have mark {token : Token} (stops : isBarred barred token = false) :
      KeepsQuiet barred copied [token] := keepsQuiet_plain (by simpa using stops)
  cases h with
  | @ended block =>
      rw [List.mem_singleton] at inside
      subst inside
      cases block <;> exact mark rfl
  | @closed block =>
      rw [List.mem_singleton] at inside
      subst inside
      cases block <;> exact mark rfl
  | comment | marker _ =>
      rw [List.mem_singleton] at inside
      subst inside
      exact fun _ quiet => quiet
  | @atRule _ name rest stop =>
      rw [List.mem_singleton] at inside
      subst inside
      have plain : barred name = false := writable.allowed
      exact keepsQuiet_item (isBarred_atKeyword.trans plain) rfl (clear_atRuleValues rest) rfl
  | @beginAtRule _ name rest stop =>
      rw [List.mem_singleton] at inside
      subst inside
      cases named : barred name with
      | false =>
          exact keepsQuiet_item (isBarred_atKeyword.trans named) rfl (clear_atRuleValues rest) rfl
      | true =>
          intro more quiet
          have copy := writable.allowed named
          simpa [Traced.written, Traced.body, Event.closing] using
            Quiet.block (clear_atRuleValues rest) (depthAfter_atRuleValues stop)
              (atRuleValues_idem _) copy quiet
  | selectors _ _ _ =>
      have plain := writable.selector
      obtain ⟨group, _, rfl | rfl⟩ := mem_selectorEvents inside
      · exact (keepsQuiet_plain plain).append (mark rfl)
      · exact (keepsQuiet_plain plain).append (mark rfl)
  | @declaration _ name rest text more named found stop =>
      have first : KeepsQuiet barred copied [name] := mark (by simp [isBarred, named])
      have value {values : List Token} (clear : Clear isStop 0 values) :
          KeepsQuiet barred copied (colon :: values ++ [semicolon]) :=
        keepsQuiet_item rfl rfl clear rfl
      rw [List.mem_singleton, declarationEvent] at inside
      split at inside
      · subst inside
        have raw : (Traced.mk
            (.customProperty name.text (Text.trimEnd (source (Item.scan more).tokens)))
            (name :: rest)).rawTokens = (Item.scan more).tokens := by
          simp [Traced.rawTokens, found]
        obtain ⟨white, whole⟩ := trimEnd_prefix (Item.scan more).tokens
        have clear := (Item.scan_scanned more).clear
        rw [← whole, clear_append] at clear
        rw [Traced.written, Traced.body, raw]
        exact first.append (value clear.1)
      · subst inside
        exact first.append (value (clear_trimmedValues more))

end UtilityCss.Parser
