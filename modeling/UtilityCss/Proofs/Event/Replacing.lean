import UtilityCss.Proofs.Event.Written

/-!
What stands behind an item. An item that ends with a semicolon or brace is read in the same way
whatever comes after that; only where the kind of an item is in doubt does the parser look further.
So other tokens may stand behind an item, and the steps in front of them stay as they are.
-/
namespace UtilityCss
open UtilityCss.Token

/-- Events of items that are told apart by what stands further on and not by their first token. -/
def Event.isPlain : Event → Bool
  | declaration _ _ | customProperty _ _ | selectorGroup _ | beginRuleset _ => true
  | _ => false

namespace Parser

namespace Item

/-- What a scan has done tells what it finds. -/
theorem Scanned.scan_eq {tokens : List Token} {item : Item} (h : Scanned tokens item) :
    scan tokens = item := by
  obtain ⟨found, stop, rest⟩ := item
  obtain ⟨cover, clear, ended⟩ := h
  simp only at cover clear ended
  subst cover
  obtain ⟨rfl, rfl⟩ | ⟨closed, token, more, rfl, stops⟩ := ended
  · rw [scan, scanFrom_append clear]
    simp [scanFrom]
  · exact scan_append_stop clear closed stops

theorem scan_replace {x r z : List Token} (ends : (scan (x ++ z)).rest = r ++ z) (some : r ≠ [])
    (z' : List Token) :
    scan (x ++ z') = ⟨(scan (x ++ z)).tokens, (scan (x ++ z)).stop, r ++ z'⟩ := by
  have scanned := scan_scanned (x ++ z)
  generalize scan (x ++ z) = item at scanned ends ⊢
  obtain ⟨cover, clear, ended⟩ := scanned
  rw [ends, ← List.append_assoc] at cover
  have cover := List.append_cancel_right cover
  obtain ⟨_, none⟩ | ⟨closed, token, more, found, stops⟩ := ended
  · rw [ends] at none
    exact absurd (List.append_eq_nil_iff.mp none).1 some
  · obtain ⟨first, r, rfl⟩ := List.exists_cons_of_ne_nil some
    obtain ⟨rfl, -⟩ := List.cons.inj (ends.symm.trans found)
    refine Scanned.scan_eq ⟨?_, clear, .inr ⟨closed, first, r ++ z', rfl, stops⟩⟩
    rw [← cover, List.append_assoc]

theorem scan_extend {x : List Token} (some : (scan x).rest ≠ []) (more : List Token) :
    scan (x ++ more) = ⟨(scan x).tokens, (scan x).stop, (scan x).rest ++ more⟩ := by
  have same := @scan_replace x (scan x).rest [] (by simp) some more
  rwa [List.append_nil] at same

/-- Where a scan stops does not depend on what it has found. -/
theorem scanFrom_stop (depth : Nat) (found found' tokens : List Token) :
    (scanFrom depth found tokens).stop = (scanFrom depth found' tokens).stop := by
  induction tokens generalizing depth found found' with
  | nil => rfl
  | cons token rest ih =>
      simp only [scanFrom]
      split
      · rfl
      · exact ih _ _ _

theorem scan_stop_congr {z z' : List Token}
    (same : ∀ depth, (scanFrom depth [] z').stop = (scanFrom depth [] z).stop) (x : List Token) :
    (scan (x ++ z')).stop = (scan (x ++ z)).stop := by
  suffices all : ∀ depth found, (scanFrom depth found (x ++ z')).stop =
      (scanFrom depth found (x ++ z)).stop from all 0 []
  induction x with
  | nil =>
      intro depth found
      exact (scanFrom_stop depth _ [] z').trans ((same depth).trans (scanFrom_stop depth [] _ z))
  | cons token rest ih =>
      intro depth found
      simp only [List.cons_append, scanFrom]
      split
      · rfl
      · exact ih _ _

/-- A token that neither ends items nor opens or closes groups has no say in how an item ends. -/
theorem scan_neutral_stop {token : Token} (passes : isStop token.kind = false)
    (neutral : ∀ depth, token.kind.nesting depth = depth) (x rest : List Token) :
    (scan (x ++ token :: rest)).stop = (scan (x ++ rest)).stop := by
  apply scan_stop_congr
  intro depth
  rw [scanFrom_cons fun _ => passes, neutral]
  exact scanFrom_stop depth _ [] rest

end Item

theorem skipTrivial_replace {semicolons : Bool} {x u z : List Token}
    (skipped : skipTrivial semicolons (x ++ z) = u ++ z) (some : u ≠ []) (z' : List Token) :
    skipTrivial semicolons (x ++ z') = u ++ z' := by
  rw [skipTrivial, List.dropWhile_append] at skipped ⊢
  split at skipped
  next =>
    have shorter := (List.dropWhile_sublist (l := z) fun token =>
      token.isWhitespace || (semicolons && token.kind == .semicolon)).length_le
    rw [skipped, List.length_append] at shorter
    exact absurd (List.length_eq_zero_iff.mp (by omega)) some
  next left => rw [if_neg left, List.append_cancel_right skipped]

/-- Steps that do the same, one in front of `z` and the other in front of `z'`. -/
inductive Alike (z z' : List Token) : Step → Step → Prop
  | yield (events : List Event) (y : List Token) (blocks : List Block) :
      Alike z z' (.yield events ⟨y ++ z, blocks⟩) (.yield events ⟨y ++ z', blocks⟩)
  | stuck (fault : SyntaxFault) (y : List Token) :
      Alike z z' (.stuck fault (y ++ z)) (.stuck fault (y ++ z'))

theorem Alike.yields {z z' : List Token} {step step' : Step} (h : Alike z z' step step')
    {events : List Event} {next : State} (yields : step = .yield events next) :
    ∃ y, next.rest = y ++ z ∧ step' = .yield events ⟨y ++ z', next.blocks⟩ := by
  cases h with
  | yield events y blocks =>
      cases yields
      exact ⟨y, rfl, rfl⟩
  | stuck => cases yields

section Items
variable {x r z : List Token} (ends : (Item.scan (x ++ z)).rest = r ++ z) (some : r ≠ [])
  (z' : List Token) (blocks : List Block)
include ends some

theorem atRule_alike (name : Token) :
    Alike z z' (atRule name (x ++ z) blocks) (atRule name (x ++ z') blocks) := by
  simp only [atRule, Item.scan_replace ends some z', ends]
  obtain ⟨first, r, rfl⟩ := List.exists_cons_of_ne_nil some
  cases (Item.scan (x ++ z)).stop with
  | semicolon | leftBrace => exact .yield _ r _
  | rightBrace | ending => exact .yield _ (first :: r) _

theorem prelude_alike : Alike z z' (prelude (x ++ z) blocks) (prelude (x ++ z') blocks) := by
  simp only [prelude, Item.scan_replace ends some z', ends]
  obtain ⟨first, r, rfl⟩ := List.exists_cons_of_ne_nil some
  split
  · exact .stuck _ (first :: r)
  split
  · exact .stuck _ x
  · exact .yield _ r _

theorem declaration_alike {w : List Token} {text : Text}
    (found : skipTrivial false (w ++ z) = ⟨.colon, text⟩ :: x ++ z) (name : Token) :
    Alike z z' (declaration name (w ++ z) blocks) (declaration name (w ++ z') blocks) := by
  have found' := skipTrivial_replace found (List.cons_ne_nil _ _) z'
  rw [List.cons_append] at found found'
  simp only [declaration, found, found', Item.scan_replace ends some z', ends]
  obtain ⟨first, r, rfl⟩ := List.exists_cons_of_ne_nil some
  cases (Item.scan (x ++ z)).stop with
  | semicolon => exact .yield _ r _
  | leftBrace => exact .stuck _ (first :: r)
  | rightBrace | ending => exact .yield _ (first :: r) _

end Items

namespace Traced

/-- The tokens from the one that ends the item of an event on. None are left of an item that breaks
off where the source ends, nor where a block is closed for want of a brace. -/
def ending (t : Traced) : List Token :=
  match t.event with
  | .atRule _ _ | .beginAtRule _ _ => (Item.scan t.unread.tail).rest
  | .selectorGroup _ | .beginRuleset _ => (Item.scan t.unread).rest
  | .declaration _ _ | .customProperty _ _ =>
    (Item.scan ((skipTrivial false t.unread.tail).drop 1)).rest
  | .endAtRule | .endRuleset | .marker _ | .comment _ => t.unread

/-- The item of an event is over, with the token that ends it, in front of the given tokens. -/
def EndsBefore (t : Traced) (z : List Token) : Prop :=
  ∃ r, r ≠ [] ∧ t.ending = r ++ z

theorem ending_suffix (t : Traced) : t.ending <:+ t.unread := by
  obtain ⟨event, unread⟩ := t
  cases event with
  | atRule _ _ | beginAtRule _ _ => exact (Item.rest_suffix _).trans (List.tail_suffix _)
  | selectorGroup _ | beginRuleset _ => exact Item.rest_suffix _
  | declaration _ _ | customProperty _ _ =>
      have colon := (skipTrivial_suffix false unread.tail).trans (List.tail_suffix _)
      exact (Item.rest_suffix _).trans ((List.drop_suffix _ _).trans colon)
  | endAtRule | endRuleset | marker _ | comment _ => exact List.suffix_refl _

end Traced

theorem ending_declarationEvent {name : Token} {rest tail tokens : List Token} {text : Text}
    (found : skipTrivial false rest = ⟨.colon, text⟩ :: tail) :
    (Traced.mk (declarationEvent name tokens) (name :: rest)).ending = (Item.scan tail).rest := by
  rw [declarationEvent]
  split <;> simp [Traced.ending, found]

theorem atRule_events {name : Token} {rest : List Token} {blocks : List Block} {events : List Event}
    {next : State} (h : atRule name rest blocks = .yield events next) {e : Event}
    (inside : e ∈ events) :
    ∃ values, e = .atRule name.text values ∨ e = .beginAtRule name.text values := by
  refine ⟨atRuleValues (Item.scan rest).tokens, ?_⟩
  simp only [atRule] at h
  split at h
  all_goals
    cases h
    simp [List.mem_singleton.mp inside]

theorem prelude_events {tokens : List Token} {blocks : List Block} {events : List Event}
    {next : State} (h : prelude tokens blocks = .yield events next) {e : Event}
    (inside : e ∈ events) :
    ∃ selector, e = .selectorGroup selector ∨ e = .beginRuleset selector := by
  simp only [prelude] at h
  split at h
  · cases h
  split at h
  · cases h
  · cases h
    obtain ⟨selector, _, same⟩ := mem_selectorEvents inside
    exact ⟨selector, same⟩

theorem declaration_found {name : Token} {rest : List Token} {blocks : List Block}
    {events : List Event} {next : State} (h : declaration name rest blocks = .yield events next) :
    ∃ text tail, skipTrivial false rest = ⟨.colon, text⟩ :: tail ∧
      events = [declarationEvent name (Item.scan tail).tokens] := by
  simp only [declaration] at h
  split at h
  next text tail found =>
    refine ⟨text, tail, found, ?_⟩
    split at h <;> cases h <;> rfl
  · cases h

theorem isDeclared_declarationEvent (name : Token) (tokens : List Token) :
    (declarationEvent name tokens).isDeclared = true := by
  rw [declarationEvent]
  split <;> rfl

theorem isPlain_declarationEvent (name : Token) (tokens : List Token) :
    (declarationEvent name tokens).isPlain = true := by
  rw [declarationEvent]
  split <;> rfl

/-- What answers for the item that a token begins. The token alone decides, except whether the item
is a declaration or a ruleset. -/
inductive Opener (inline : Bool) (blocks : List Block) (token : Token) : Prop
  | alone (event : Event) (after : List Block) : event.isDeclared = false →
      (∀ unread, (Traced.mk event unread).ending = unread) →
      (∀ rest, itemStep inline token rest blocks = .yield [event] ⟨rest, after⟩) →
      Opener inline blocks token
  | wrong : (∀ rest, itemStep inline token rest blocks =
        .stuck .unexpectedCloseBrace (token :: rest)) →
      Opener inline blocks token
  | atRule : (∀ rest, itemStep inline token rest blocks = atRule token rest blocks) →
      Opener inline blocks token
  | item : (∀ rest, itemStep inline token rest blocks =
        if isDeclaration inline blocks (token :: rest) then declaration token rest blocks
        else prelude (token :: rest) blocks) →
      Opener inline blocks token

theorem opener (inline : Bool) (blocks : List Block) (token : Token) :
    Opener inline blocks token := by
  obtain ⟨kind, text⟩ := token
  cases kind with
  | comment => exact .alone (.comment text) blocks rfl (fun _ => rfl) fun _ => rfl
  | cdo | cdc => exact .alone (.marker text) blocks rfl (fun _ => rfl) fun _ => rfl
  | rightBrace =>
      cases blocks with
      | nil => exact .wrong fun _ => rfl
      | cons block blocks =>
          cases block with
          | atRule => exact .alone .endAtRule blocks rfl (fun _ => rfl) fun _ => rfl
          | ruleset => exact .alone .endRuleset blocks rfl (fun _ => rfl) fun _ => rfl
  | atKeyword => exact .atRule fun _ => rfl
  | _ => exact .item fun _ => rfl

theorem step_of_unread {inline : Bool} {s : State} {token : Token} {rest : List Token}
    (h : s.unread inline = token :: rest) :
    step inline s = itemStep inline token rest s.blocks := by
  rw [step, ← State.unread, h]

/-- An item that is over in front of `z` is read in the same way in front of `z'`, unless these
tokens have a say in what the item is. -/
theorem itemStep_alike {inline : Bool} {token : Token} {x z : List Token} {blocks : List Block}
    {events : List Event} {next : State}
    (h : itemStep inline token (x ++ z) blocks = .yield events next) {e : Event}
    (inside : e ∈ events) (ends : (Traced.mk e (token :: (x ++ z))).EndsBefore z) {z' : List Token}
    (look : e.isPlain = true → isDeclaration inline blocks (token :: x ++ z') =
      isDeclaration inline blocks (token :: x ++ z)) :
    Alike z z' (itemStep inline token (x ++ z) blocks)
      (itemStep inline token (x ++ z') blocks) := by
  obtain ⟨r, some, ends⟩ := ends
  cases opener inline blocks token with
  | alone event after _ _ step =>
      rw [step, step]
      exact .yield [event] x after
  | wrong step =>
      rw [step] at h
      cases h
  | atRule step =>
      rw [step] at h
      rw [step, step]
      obtain ⟨_, rfl | rfl⟩ := atRule_events h inside <;>
        exact atRule_alike ends some z' blocks token
  | item step =>
      rw [step] at h
      rw [step, step]
      simp only [List.cons_append] at look
      split at h
      next declared =>
        obtain ⟨colon, tail, found, rfl⟩ := declaration_found h
        obtain rfl := List.mem_singleton.mp inside
        rw [look (isPlain_declarationEvent _ _), if_pos declared, if_pos declared]
        rw [ending_declarationEvent found] at ends
        -- The value of the declaration lies in front of `z`.
        obtain ⟨w, rfl⟩ : ∃ w, tail = w ++ z := by
          obtain ⟨item, whole⟩ := Item.rest_suffix tail
          exact ⟨item ++ r, by rw [← whole, ends, List.append_assoc]⟩
        exact declaration_alike ends some z' blocks found _
      next ruled =>
        obtain ⟨_, rfl | rfl⟩ := prelude_events h inside
        all_goals
          rw [look rfl, if_neg ruled, if_neg ruled]
          exact @prelude_alike (token :: x) _ _ ends some z' blocks

/-- What has read a declaration reads one from the same name, where nothing else is told of it. -/
theorem itemStep_of_declared {inline : Bool} {token : Token} {rest : List Token}
    {blocks : List Block} {events : List Event} {next : State}
    (h : itemStep inline token rest blocks = .yield events next) {e : Event} (inside : e ∈ events)
    (declared : e.isDeclared = true) {rest' : List Token}
    (look : isDeclaration inline blocks (token :: rest') =
      isDeclaration inline blocks (token :: rest)) :
    itemStep inline token rest' blocks = declaration token rest' blocks := by
  cases opener inline blocks token with
  | alone event after undeclared _ step =>
      rw [step] at h
      cases h
      rw [List.mem_singleton.mp inside, undeclared] at declared
      cases declared
  | wrong step =>
      rw [step] at h
      cases h
  | atRule step =>
      rw [step] at h
      obtain ⟨_, rfl | rfl⟩ := atRule_events h inside <;> cases declared
  | item step =>
      rw [step] at h ⊢
      split at h
      next yes => rw [look, if_pos yes]
      next => obtain ⟨_, rfl | rfl⟩ := prelude_events h inside <;> cases declared

theorem step_alike {inline : Bool} {x z : List Token} {blocks : List Block} {events : List Event}
    {next : State} (h : step inline ⟨x ++ z, blocks⟩ = .yield events next) {e : Event}
    (inside : e ∈ events)
    (ends : (Traced.mk e (State.unread inline ⟨x ++ z, blocks⟩)).EndsBefore z) {z' : List Token}
    (look : e.isPlain = true → ∀ u, u <:+ x → State.unread inline ⟨x ++ z, blocks⟩ = u ++ z →
      isDeclaration inline blocks (u ++ z') = isDeclaration inline blocks (u ++ z)) :
    Alike z z' (step inline ⟨x ++ z, blocks⟩) (step inline ⟨x ++ z', blocks⟩) := by
  obtain ⟨r, some, ending⟩ := ends
  obtain ⟨front, whole⟩ := Traced.ending_suffix ⟨e, State.unread inline ⟨x ++ z, blocks⟩⟩
  rw [ending, ← List.append_assoc] at whole
  have unread : State.unread inline ⟨x ++ z, blocks⟩ = (front ++ r) ++ z := whole.symm
  obtain ⟨token, u, split⟩ :=
    List.exists_cons_of_ne_nil (List.append_ne_nil_of_right_ne_nil front some)
  rw [split] at unread
  have unread' : State.unread inline ⟨x ++ z', blocks⟩ = token :: u ++ z' :=
    skipTrivial_replace unread (List.cons_ne_nil _ _) z'
  have suffix : token :: u <:+ x := by
    have inRest := State.unread_suffix inline ⟨x ++ z, blocks⟩
    rw [unread] at inRest
    exact List.suffix_append_self_iff.mp inRest
  rw [step_of_unread unread] at h ⊢
  rw [step_of_unread unread']
  refine itemStep_alike h inside ?_ fun plain => look plain _ suffix unread
  exact ⟨r, some, by rw [← ending, unread, List.cons_append]⟩

/-- After an item comes what stands behind the token that ends it, or that token itself where it is
a closing brace. -/
theorem Item.after_cases (tokens : List Token) :
    (scan tokens).after = (scan tokens).rest.tail ∨
      (scan tokens).after = (scan tokens).rest ∧
        ∀ token ∈ (scan tokens).rest.head?, token.kind = .rightBrace := by
  have scanned := scan_scanned tokens
  generalize scan tokens = item at scanned ⊢
  obtain ⟨_, none⟩ | ⟨_, token, rest, found, stops⟩ := scanned.ended
  · exact .inr ⟨by rw [after, none]; split <;> rfl, by simp [none]⟩
  · obtain ⟨_, stop⟩ | ⟨_, stop⟩ | ⟨kind, stop⟩ := Stop.ofKind?_eq_some stops
    · exact .inl (by rw [after, stop, List.drop_one])
    · exact .inl (by rw [after, stop, List.drop_one])
    · exact .inr ⟨by rw [after, stop], by simpa [found] using kind⟩

theorem Reads.rest_cases {blocks : List Block} {unread : List Token} {events : List Event}
    {next : State} (h : Reads blocks unread events next) {e : Event} (inside : e ∈ events) :
    next.rest = (Traced.mk e unread).ending.tail ∨
      next.rest = (Traced.mk e unread).ending ∧
        ∀ token ∈ (Traced.mk e unread).ending.head?, token.kind = .rightBrace := by
  cases h with
  | @ended block _ | @closed block _ _ _ =>
      rw [List.mem_singleton.mp inside]
      cases block <;> exact .inl rfl
  | comment | marker _ =>
      rw [List.mem_singleton.mp inside]
      exact .inl rfl
  | atRule _ | beginAtRule _ =>
      rw [List.mem_singleton.mp inside]
      exact Item.after_cases _
  | selectors _ _ _ =>
      obtain ⟨_, _, rfl | rfl⟩ := mem_selectorEvents inside <;> exact Item.after_cases _
  | declaration _ found _ =>
      rw [List.mem_singleton.mp inside, ending_declarationEvent found]
      exact Item.after_cases _

/-- The events of an item end with it. -/
theorem Reads.ending_eq {blocks : List Block} {unread : List Token} {events : List Event}
    {next : State} (h : Reads blocks unread events next) {e e' : Event} (inside : e ∈ events)
    (inside' : e' ∈ events) : (Traced.mk e unread).ending = (Traced.mk e' unread).ending := by
  cases h with
  | selectors _ _ _ =>
      obtain ⟨_, _, rfl | rfl⟩ := mem_selectorEvents inside <;>
        obtain ⟨_, _, rfl | rfl⟩ := mem_selectorEvents inside' <;> rfl
  | _ => rw [List.mem_singleton.mp inside, List.mem_singleton.mp inside']

theorem Reads.rest_suffix_ending {blocks : List Block} {unread : List Token} {events : List Event}
    {next : State} (h : Reads blocks unread events next) {e : Event} (inside : e ∈ events) :
    next.rest <:+ (Traced.mk e unread).ending := by
  obtain rest | ⟨rest, _⟩ := h.rest_cases inside
  · exact rest ▸ List.tail_suffix _
  · exact rest ▸ List.suffix_refl _

theorem Reads.events_ne_nil {blocks : List Block} {unread : List Token} {events : List Event}
    {next : State} (h : Reads blocks unread events next) : events ≠ [] := by
  cases h with
  | selectors _ parts _ =>
      subst parts
      have some : (splitGroups (Item.scan unread).tokens).map trimmedValues ≠ [] := by
        simpa [splitGroups] using splitGroupsFrom_ne_nil 0 [] [] (Item.scan unread).tokens
      intro none
      have starts := startsSelector_selectorEvents some
      rw [none] at starts
      cases starts
  | _ => exact List.cons_ne_nil _ _

end Parser
end UtilityCss
