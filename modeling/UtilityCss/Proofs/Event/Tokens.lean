import Mathlib.Data.List.Basic
import UtilityCss.Proofs.Event.Trace
import UtilityCss.Proofs.Token.Lexing

/-!
No token is lost, read twice or moved. Every event stands for tokens of its own, and but for white
space, comments, markup escapes and semicolons these are, one event after the other, the tokens of
the source, up to its end or to the error that ends the reading.
-/
namespace UtilityCss

namespace Token

def colon : Token := ⟨.colon, [':']⟩
def semicolon : Token := ⟨.semicolon, [';']⟩
def comma : Token := ⟨.comma, [',']⟩
def leftBrace : Token := ⟨.leftBrace, ['\x7b']⟩
def rightBrace : Token := ⟨.rightBrace, ['\x7d']⟩

/-- Tokens less white space, comments, markup escapes and semicolons. -/
def essential (tokens : List Token) : List Token :=
  tokens.filter fun token =>
    !token.kind.isTrivia && token.kind != .cdo && token.kind != .cdc && token.kind != .semicolon

theorem essential_append (xs ys : List Token) :
    essential (xs ++ ys) = essential xs ++ essential ys :=
  List.filter_append ..

theorem essential_cons (token : Token) (rest : List Token) :
    essential (token :: rest) = essential [token] ++ essential rest :=
  essential_append [token] rest

@[simp] theorem essential_comma (rest : List Token) :
    essential (comma :: rest) = comma :: essential rest := rfl

theorem essential_solid (tokens : List Token) : essential (solid tokens) = essential tokens := by
  rw [essential, essential, solid, List.filter_filter]
  congr 1
  funext token
  cases token.kind.isTrivia <;> simp

theorem essential_eq_of_solid {xs ys : List Token} (h : solid xs = solid ys) :
    essential xs = essential ys := by
  rw [← essential_solid xs, h, essential_solid]

end Token

open UtilityCss.Token
namespace Parser

namespace Traced

/-- The name of a declaration, of the kind that the first unread token has. -/
def nameToken (t : Traced) (name : Text) : Token :=
  ⟨t.unread.head?.elim .ident (·.kind), name⟩

/-- What stands between the colon of a custom property and the end of its value. -/
def rawTokens (t : Traced) : List Token :=
  (Item.scan ((skipTrivial false t.unread.tail).drop 1)).tokens

/-- The tokens that an event stands for. The end of a block stands for a brace, or for nothing where
the source is at its end. -/
def tokens (t : Traced) : List Token :=
  match t.event with
  | .atRule name values => ⟨.atKeyword, name⟩ :: values
  | .beginAtRule name values => ⟨.atKeyword, name⟩ :: values ++ [leftBrace]
  | .selectorGroup selector => selector ++ [comma]
  | .beginRuleset selector => selector ++ [leftBrace]
  | .declaration name values => t.nameToken name :: colon :: values
  | .customProperty name _ => t.nameToken name :: colon :: t.rawTokens
  | .endAtRule | .endRuleset => if t.unread.isEmpty then [] else [rightBrace]
  | .marker _ | .comment _ => []

end Traced

theorem essential_skipTrivial (semicolons : Bool) (tokens : List Token) :
    essential (skipTrivial semicolons tokens) = essential tokens := by
  rw [skipTrivial]
  induction tokens with
  | nil => rfl
  | cons token rest ih =>
      rw [List.dropWhile_cons]
      split
      next skipped =>
        rw [ih, essential_cons token rest]
        have inessential : essential [token] = [] := by
          cases hk : token.kind <;> simp_all [essential, isWhitespace, Kind.isTrivia]
        rw [inessential, List.nil_append]
      next => rfl

theorem essential_after {tokens : List Token} (stop : (Item.scan tokens).stop ≠ .leftBrace) :
    essential tokens =
      essential (Item.scan tokens).tokens ++ essential (Item.scan tokens).after := by
  have scanned := Item.scan_scanned tokens
  generalize Item.scan tokens = item at scanned stop ⊢
  rw [← scanned.cover, essential_append]
  congr 1
  obtain ⟨ending, rest⟩ | ⟨_, token, more, rest, ends⟩ := scanned.ended
  · rw [Item.after, ending]
  · obtain ⟨kind, text⟩ := token
    rw [Item.after, rest]
    obtain ⟨rfl, stops⟩ | ⟨_, stops⟩ | ⟨rfl, stops⟩ := Stop.ofKind?_eq_some ends
    · simp only [stops]
      rfl
    · exact absurd stops stop
    · simp only [stops]

theorem essential_after_brace {tokens : List Token} (regular : ∀ token ∈ tokens, token.Regular)
    (stop : (Item.scan tokens).stop = .leftBrace) :
    essential tokens = essential (Item.scan tokens).tokens ++ leftBrace ::
      essential (Item.scan tokens).after := by
  have scanned := Item.scan_scanned tokens
  generalize Item.scan tokens = item at scanned stop ⊢
  obtain ⟨ending, _⟩ | ⟨_, token, more, rest, ends⟩ := scanned.ended
  · simp [stop] at ending
  · obtain ⟨kind, text⟩ := token
    have brace : kind = .leftBrace := by
      have := Stop.ofKind?_eq_some ends
      simp_all
    subst brace
    have written : text = ['\x7b'] :=
      regular ⟨.leftBrace, text⟩ (by simp [← scanned.cover, rest]) '\x7b' rfl
    subst written
    rw [← scanned.cover, essential_append, Item.after, stop, rest]
    rfl

/-- Groups with the commas that part them. -/
def commaJoined : List (List Token) → List Token
  | [] => []
  | [last] => last
  | group :: rest => group ++ comma :: commaJoined rest

theorem commaJoined_cons {group : List Token} {rest : List (List Token)} (h : rest ≠ []) :
    commaJoined (group :: rest) = group ++ comma :: commaJoined rest := by
  cases rest with
  | nil => exact absurd rfl h
  | cons => rfl

theorem commaJoined_append (groups : List (List Token)) (xs ys : List Token) :
    commaJoined (groups ++ [xs, ys]) = commaJoined (groups ++ [xs ++ comma :: ys]) := by
  induction groups with
  | nil => rfl
  | cons group rest ih =>
      rw [List.cons_append, List.cons_append, commaJoined_cons (by simp),
        commaJoined_cons (by simp), ih]

theorem commaJoined_splitGroupsFrom (depth : Nat) (part : List Token) (found : List (List Token))
    {tokens : List Token} (regular : ∀ token ∈ tokens, token.Regular) :
    commaJoined (splitGroupsFrom depth part found tokens) =
      commaJoined (found.reverse ++ [part.reverse ++ tokens]) := by
  induction tokens generalizing depth part found with
  | nil => simp [splitGroupsFrom]
  | cons token rest ih =>
      obtain ⟨first, others⟩ := List.forall_mem_cons.mp regular
      simp only [splitGroupsFrom]
      split
      next isComma =>
        obtain ⟨kind, text⟩ := token
        obtain ⟨_, rfl⟩ := isComma
        have written : text = [','] := first ',' rfl
        subst written
        rw [ih _ _ _ others, List.reverse_cons, List.append_assoc]
        exact commaJoined_append found.reverse part.reverse rest
      next =>
        rw [ih _ _ _ others]
        simp

theorem commaJoined_splitGroups {tokens : List Token}
    (regular : ∀ token ∈ tokens, token.Regular) : commaJoined (splitGroups tokens) = tokens :=
  commaJoined_splitGroupsFrom 0 [] [] regular

theorem essential_commaJoined_trimmed (groups : List (List Token)) :
    essential (commaJoined (groups.map trimmedValues)) = essential (commaJoined groups) := by
  induction groups with
  | nil => rfl
  | cons group rest ih =>
      have trimmed := essential_eq_of_solid (solid_trimmedValues group)
      cases rest with
      | nil => exact trimmed
      | cons next rest =>
          rw [List.map_cons, commaJoined_cons (by simp), commaJoined_cons (by simp),
            essential_append, essential_append, trimmed, essential_comma, essential_comma, ih]

theorem flatMap_tokens_selectorEvents {groups : List (List Token)} (h : groups ≠ [])
    (unread : List Token) :
    (selectorEvents groups).flatMap (fun e => (Traced.mk e unread).tokens) =
      commaJoined groups ++ [leftBrace] := by
  induction groups with
  | nil => exact absurd rfl h
  | cons group rest ih =>
      cases rest with
      | nil => simp [selectorEvents, Traced.tokens, commaJoined]
      | cons next rest =>
          show group ++ [comma] ++ (selectorEvents (next :: rest)).flatMap _ = _
          rw [ih (by simp), @commaJoined_cons group _ (by simp)]
          simp

theorem essential_declarationEvent {name : Token} {text : Text} {rest more : List Token}
    (found : skipTrivial false rest = ⟨.colon, text⟩ :: more) :
    essential (Traced.mk (declarationEvent name (Item.scan more).tokens) (name :: rest)).tokens =
      essential [name] ++ colon :: essential (Item.scan more).tokens := by
  rw [declarationEvent]
  split
  · simp only [Traced.tokens, Traced.rawTokens, List.tail_cons, found, List.drop_one]
    exact essential_cons _ _
  · have values := essential_eq_of_solid (solid_trimmedValues (Item.scan more).tokens)
    rw [← values]
    exact essential_cons _ _

/-- What an item reads as stands for the tokens that are gone from the unread ones. -/
theorem Reads.essential_eq {blocks : List Block} {unread : List Token} {events : List Event}
    {next : State} (h : Reads blocks unread events next)
    (regular : ∀ token ∈ unread, token.Regular) :
    essential unread =
      essential (events.flatMap fun e => (Traced.mk e unread).tokens) ++ essential next.rest := by
  cases h with
  | ended =>
      next block _ => cases block <;> rfl
  | @closed block _ text rest =>
      have written : text = ['\x7d'] := regular _ List.mem_cons_self '\x7d' rfl
      subst written
      cases block <;> rfl
  | comment => rfl
  | marker kind => obtain rfl | rfl := kind <;> rfl
  | @atRule _ name rest stop =>
      have values := essential_eq_of_solid (solid_atRuleValues (Item.scan rest).tokens)
      simp only [List.flatMap_singleton, Traced.tokens]
      rw [essential_cons, essential_after stop, ← values, ← List.append_assoc, ← essential_cons]
  | @beginAtRule _ name rest stop =>
      have values := essential_eq_of_solid (solid_atRuleValues (Item.scan rest).tokens)
      have others := (List.forall_mem_cons.mp regular).2
      simp only [List.flatMap_singleton, Traced.tokens, List.cons_append]
      rw [essential_cons, essential_after_brace others stop, ← values, essential_cons _ (_ ++ _),
        essential_append]
      simp
      rfl
  | selectors stop groups full =>
      have someGroup : splitGroups (Item.scan unread).tokens ≠ [] :=
        splitGroupsFrom_ne_nil 0 [] [] _
      have inItem : ∀ token ∈ (Item.scan unread).tokens, token.Regular := fun token inside =>
        regular token ((Item.scan_scanned unread).cover ▸ List.mem_append_left _ inside)
      subst groups
      rw [flatMap_tokens_selectorEvents (by simpa using someGroup), essential_append,
        essential_commaJoined_trimmed, commaJoined_splitGroups inItem,
        essential_after_brace regular stop]
      simp
      rfl
  | @declaration _ name rest text more named found stop =>
      have others := (List.forall_mem_cons.mp regular).2
      have colonRead : (⟨.colon, text⟩ : Token) ∈ rest :=
        (skipTrivial_suffix false rest).subset (found ▸ List.mem_cons_self)
      have written : text = [':'] := others _ colonRead ':' rfl
      subst written
      rw [essential_cons, ← essential_skipTrivial false rest, found, List.flatMap_singleton,
        essential_declarationEvent found, List.append_assoc, List.cons_append,
        ← essential_after stop]
      rfl

/-- A run stands for all tokens up to where it ends, which is the end of the source unless it is
stuck. -/
theorem Run.essential_eq {inline : Bool} {s : State} {events : List Event}
    {stop : Option (SyntaxFault × List Token)} (h : Run inline s events stop)
    (regular : ∀ token ∈ s.rest, token.Regular) :
    ∃ left, essential s.rest = essential ((trace inline s).flatMap Traced.tokens) ++ left ∧
      (stop = none → left = []) := by
  induction h with
  | @done s h =>
      refine ⟨[], ?_, fun _ => rfl⟩
      rw [trace, h, ← essential_skipTrivial, ← State.unread, unread_of_done h]
      rfl
  | @stuck s fault rest h =>
      refine ⟨essential s.rest, ?_, by simp⟩
      rw [trace, h]
      rfl
  | @yield s next events more stop h _ ih =>
      have reads := step_reads h
      have unread := s.unread_suffix inline
      have eq := reads.essential_eq fun token member => regular token (unread.subset member)
      obtain ⟨left, others, whole⟩ := ih fun token member =>
        regular token ((reads.rest_suffix.trans unread).subset member)
      refine ⟨left, ?_, whole⟩
      rw [trace, h, ← essential_skipTrivial, ← State.unread, eq, others]
      simp [essential_append, List.flatMap_append, List.flatMap_map]

end Parser

open UtilityCss.Parser

/-- The tokens that the events of a source stand for are, less white space, comments, markup escapes
and semicolons, the first tokens of the source, and all of them where the reading ends without an
error. -/
theorem reading_keeps_tokens {source : Text} {tokens : List Token}
    (cut : Lexer.tokens source = .ok tokens) (inline : Bool) :
    (trace inline ⟨tokens, []⟩).map Traced.event = (Reading.ofText source inline).events ∧
      essential ((trace inline ⟨tokens, []⟩).flatMap Traced.tokens) <+: essential tokens ∧
      ((Reading.ofText source inline).error = none →
        essential ((trace inline ⟨tokens, []⟩).flatMap Traced.tokens) = essential tokens) := by
  obtain ⟨stop, hrun, hstop⟩ := Reading.ofText_run cut inline
  obtain ⟨left, eq, whole⟩ := hrun.essential_eq (Lexer.tokens_eq_ok_iff.mp cut).regular
  refine ⟨hrun.trace_events, ⟨left, eq.symm⟩, fun noError => ?_⟩
  rw [eq, whole (hstop.mp noError), List.append_nil]

/-- A selector list, a comment in a value and a block that the source leaves open. -/
theorem keeps_tokens_openRuleset :
    let tokens : List Token :=
      [⟨.ident, ['a']⟩, comma, ⟨.ident, ['b']⟩, leftBrace, ⟨.ident, ['c']⟩, colon, ⟨.ident, ['d']⟩,
        ⟨.comment, "/**/".toList⟩, ⟨.number, ['1']⟩]
    Lexer.tokens "a,b\x7bc:d/**/1".toList = .ok tokens ∧
      (Reading.ofText "a,b\x7bc:d/**/1".toList false).error = none ∧
      essential ((trace false ⟨tokens, []⟩).flatMap Traced.tokens) = essential tokens := by
  intro tokens
  have cut : Lexer.tokens "a,b\x7bc:d/**/1".toList = .ok tokens := by decide +kernel
  have whole : (Reading.ofText "a,b\x7bc:d/**/1".toList false).error = none := by decide +kernel
  exact ⟨cut, whole, (reading_keeps_tokens cut false).2.2 whole⟩

end UtilityCss
