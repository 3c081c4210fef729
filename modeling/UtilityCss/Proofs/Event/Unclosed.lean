import UtilityCss.Proofs.Event.Path

/-!
Sources that end with blocks open. These are closed there, one after the other, and closing braces
at the end do the same: a brace ends the last item where the end of the source would have, unless
that has a group open, which the brace would close instead.
-/
namespace UtilityCss
open UtilityCss.Token
namespace Parser

namespace Traced

/-- The tokens that are scanned for the end of the item of an event. -/
def scanned (t : Traced) : List Token :=
  match t.event with
  | .atRule _ _ | .beginAtRule _ _ => (Item.scan t.unread.tail).tokens
  | .selectorGroup _ | .beginRuleset _ => (Item.scan t.unread).tokens
  | .declaration _ _ | .customProperty _ _ => t.rawTokens
  | .endAtRule | .endRuleset | .marker _ | .comment _ => []

/-- No group is open where the source ends, if it ends within the item of the event. -/
def Shut (t : Traced) : Prop :=
  t.ending = [] → depthAfter 0 t.scanned = 0

instance (t : Traced) : Decidable t.Shut :=
  inferInstanceAs (Decidable (t.ending = [] → depthAfter 0 t.scanned = 0))

end Traced

/-- Tokens that close blocks and nothing else. -/
def Closing (tokens : List Token) : Prop :=
  ∀ token ∈ tokens, token.kind = .rightBrace

theorem closing_replicate (n : Nat) : Closing (List.replicate n rightBrace) := by
  intro token inside
  rw [List.eq_of_mem_replicate inside]
  rfl

namespace Item

/-- A brace behind tokens that break off outside of groups ends their item. -/
theorem scan_broken {x : List Token} (broken : (scan x).rest = [])
    (shut : depthAfter 0 (scan x).tokens = 0) {brace : Token} (closes : brace.kind = .rightBrace)
    (more : List Token) :
    scan x = ⟨x, .ending, []⟩ ∧ scan (x ++ brace :: more) = ⟨x, .rightBrace, brace :: more⟩ := by
  have scanned := scan_scanned x
  generalize scan x = item at broken shut scanned ⊢
  obtain ⟨tokens, stop, rest⟩ := item
  obtain ⟨cover, clear, ended⟩ := scanned
  simp only at broken shut cover clear ended
  subst broken
  rw [List.append_nil] at cover
  subst cover
  obtain ⟨rfl, _⟩ | ⟨_, _, _, left, _⟩ := ended
  · exact ⟨rfl, scan_append_stop clear shut (by rw [closes]; rfl)⟩
  · cases left

theorem scanFrom_closing {z : List Token} (closing : Closing z) (depth : Nat) (found : List Token) :
    (scanFrom depth found z).stop ≠ .leftBrace := by
  induction z generalizing depth found with
  | nil => simp [scanFrom]
  | cons token rest ih =>
      obtain ⟨first, others⟩ := List.forall_mem_cons.mp closing
      rw [scanFrom]
      split
      next stop stops =>
        split at stops
        · rw [first] at stops
          cases stops
          simp
        · cases stops
      next => exact ih others _ _

/-- Closing braces open nothing. -/
theorem scan_closing_stop {z : List Token} (closing : Closing z) (x : List Token) :
    (scan (x ++ z)).stop = .leftBrace ↔ (scan x).stop = .leftBrace := by
  suffices all : ∀ depth found, (scanFrom depth found (x ++ z)).stop = .leftBrace ↔
      (scanFrom depth found x).stop = .leftBrace from all 0 []
  induction x with
  | nil =>
      intro depth found
      simp [scanFrom_closing closing, scanFrom]
  | cons token rest ih =>
      intro depth found
      simp only [List.cons_append, scanFrom]
      split
      · rfl
      · exact ih _ _

end Item

theorem isDeclaration_closing {z : List Token} (closing : Closing z) (inline : Bool)
    (blocks : List Block) (x : List Token) :
    isDeclaration inline blocks (x ++ z) = isDeclaration inline blocks x := by
  have same := Item.scan_closing_stop closing x
  simp only [isDeclaration]
  split
  · rw [Bool.eq_iff_iff, bne_iff_ne, bne_iff_ne, Ne, same]
  · rfl

theorem State.unread_extend {inline : Bool} {s : State} (begun : s.unread inline ≠ [])
    (z : List Token) : State.unread inline ⟨s.rest ++ z, s.blocks⟩ = s.unread inline ++ z := by
  have same : skipTrivial (onlyDeclarations inline s.blocks) (s.rest ++ []) =
      s.unread inline ++ [] := by
    rw [List.append_nil, List.append_nil]
    rfl
  exact skipTrivial_replace same begun z

theorem scanned_declarationEvent {name : Token} {rest tail : List Token} {text : Text}
    (found : skipTrivial false rest = ⟨.colon, text⟩ :: tail) :
    (Traced.mk (declarationEvent name (Item.scan tail).tokens) (name :: rest)).scanned =
      (Item.scan tail).tokens := by
  rw [declarationEvent]
  split <;> simp [Traced.scanned, Traced.rawTokens, found]

/-- A selector list does not break off, it ends with a brace. -/
theorem prelude_unbroken {tokens : List Token} {blocks : List Block} {events : List Event}
    {next : State} (h : prelude tokens blocks = .yield events next) :
    (Item.scan tokens).rest ≠ [] := by
  have block : (Item.scan tokens).stop = .leftBrace := by
    by_contra other
    simp [prelude, other] at h
  have stopped : (Item.scan tokens).stop ≠ .ending := by simp [block]
  exact List.ne_nil_of_length_pos (Item.scan_rest stopped)

section Items
variable {brace : Token} (closes : brace.kind = .rightBrace) (more : List Token) {x : List Token}
  {blocks : List Block} {events : List Event} {next : State}
include closes

theorem atRule_broken {name : Token} (broken : (Item.scan x).rest = [])
    (shut : depthAfter 0 (Item.scan x).tokens = 0) (h : atRule name x blocks = .yield events next) :
    atRule name (x ++ brace :: more) blocks =
      .yield events ⟨next.rest ++ brace :: more, next.blocks⟩ := by
  obtain ⟨whole, scanned⟩ := Item.scan_broken broken shut closes more
  simp only [atRule, whole] at h
  cases h
  simp [atRule, scanned]

theorem declaration_broken {name : Token} {tail : List Token} {text : Text}
    (found : skipTrivial false x = ⟨.colon, text⟩ :: tail) (broken : (Item.scan tail).rest = [])
    (shut : depthAfter 0 (Item.scan tail).tokens = 0)
    (h : declaration name x blocks = .yield events next) :
    declaration name (x ++ brace :: more) blocks =
      .yield events ⟨next.rest ++ brace :: more, next.blocks⟩ := by
  obtain ⟨whole, scanned⟩ := Item.scan_broken broken shut closes more
  have found' : skipTrivial false (x ++ brace :: more) =
      ⟨.colon, text⟩ :: (tail ++ brace :: more) := by
    refine skipTrivial_replace (u := ⟨.colon, text⟩ :: tail) (z := []) ?_ (List.cons_ne_nil _ _) _
    rw [List.append_nil, List.append_nil, found]
  simp only [declaration, found, whole] at h
  cases h
  simp [declaration, found', scanned]

/-- A brace ends an item that breaks off, and then closes a block as it would have done by
itself. -/
theorem step_broken {inline : Bool} {s : State} (h : step inline s = .yield events next)
    (begun : s.unread inline ≠ []) {e : Event} (inside : e ∈ events)
    (broken : (Traced.mk e (s.unread inline)).ending = [])
    (shut : (Traced.mk e (s.unread inline)).Shut) (closing : Closing more) :
    step inline ⟨s.rest ++ brace :: more, s.blocks⟩ =
      .yield events ⟨next.rest ++ brace :: more, next.blocks⟩ := by
  have unread' := State.unread_extend begun (brace :: more)
  have look := isDeclaration_closing (z := brace :: more) (by simpa [Closing, closes] using closing)
    inline s.blocks (s.unread inline)
  have shut := shut broken
  obtain ⟨token, rest, unread⟩ := List.exists_cons_of_ne_nil begun
  rw [unread] at unread' look broken shut
  rw [List.cons_append] at unread' look
  rw [step_of_unread unread] at h
  rw [step_of_unread unread']
  cases opener inline s.blocks token with
  | alone event after _ ending step =>
      rw [step] at h
      cases h
      rw [List.mem_singleton.mp inside, ending] at broken
      cases broken
  | wrong step =>
      rw [step] at h
      cases h
  | atRule step =>
      rw [step] at h ⊢
      obtain ⟨_, rfl | rfl⟩ := atRule_events h inside <;>
        exact atRule_broken closes more broken shut h
  | item step =>
      rw [step] at h ⊢
      rw [look]
      split at h
      next declared =>
        rw [if_pos declared]
        obtain ⟨text, tail, found, rfl⟩ := declaration_found h
        obtain rfl := List.mem_singleton.mp inside
        rw [ending_declarationEvent found] at broken
        rw [scanned_declarationEvent found] at shut
        exact declaration_broken closes more found broken shut h
      next ruled =>
        obtain ⟨_, rfl | rfl⟩ := prelude_events h inside <;>
          exact absurd broken (prelude_unbroken h)

end Items

/-- What is read of an item does not change where closing braces stand behind the source. -/
theorem step_closing {inline : Bool} {s next : State} {events : List Event}
    (h : step inline s = .yield events next) (begun : s.unread inline ≠ [])
    (shut : ∀ e ∈ events, (Traced.mk e (s.unread inline)).Shut) {z : List Token}
    (closing : Closing z) :
    step inline ⟨s.rest ++ z, s.blocks⟩ = .yield events ⟨next.rest ++ z, next.blocks⟩ := by
  obtain ⟨e, inside⟩ := List.exists_mem_of_ne_nil _ (step_reads h).events_ne_nil
  by_cases broken : (Traced.mk e (s.unread inline)).ending = []
  · cases z with
    | nil => simpa using h
    | cons brace more =>
        obtain ⟨closes, others⟩ := List.forall_mem_cons.mp closing
        exact step_broken closes more h begun inside broken (shut e inside) others
  · exact step_extend h inside broken fun _ => isDeclaration_closing closing inline _ _

/-- How many blocks a run closes where nothing is left to read. -/
def unclosed (inline : Bool) (s : State) : Nat :=
  (trace inline s).countP (·.unread.isEmpty)

/-- Open blocks are closed whether their braces are there or not. -/
theorem run_closing (inline : Bool) {blocks : List Block} {n : Nat} (fits : n ≤ blocks.length) :
    Run inline ⟨List.replicate n rightBrace, blocks⟩ (blocks.map Block.ended) none := by
  induction blocks generalizing n with
  | nil =>
      obtain rfl : n = 0 := Nat.le_zero.mp fits
      exact .done rfl
  | cons block blocks ih =>
      rw [List.map_cons, ← List.singleton_append]
      cases n with
      | zero =>
          have step : step inline ⟨[], block :: blocks⟩ = .yield [block.ended] ⟨[], blocks⟩ := rfl
          exact .yield step (ih (Nat.zero_le _))
      | succ n =>
          have fits := Nat.le_of_succ_le_succ fits
          have step : step inline ⟨rightBrace :: List.replicate n rightBrace, block :: blocks⟩ =
              .yield [block.ended] ⟨List.replicate n rightBrace, blocks⟩ := by
            cases block <;> rfl
          exact .yield step (ih fits)

theorem step_of_spaces {inline : Bool} {s : State} (spaces : s.unread inline = [])
    (z : List Token) : step inline ⟨s.rest ++ z, s.blocks⟩ = step inline ⟨z, s.blocks⟩ := by
  have passed : skipTrivial (onlyDeclarations inline s.blocks) (s.rest ++ z) =
      skipTrivial (onlyDeclarations inline s.blocks) z := by
    rw [skipTrivial, List.dropWhile_append, ← skipTrivial, ← State.unread, spaces]
    rfl
  simp only [step, passed]

/-- Where no item is left a run closes the blocks that are open. -/
theorem Run.of_spaces {inline : Bool} {s : State} {events : List Event}
    (run : Run inline s events none) (spaces : s.unread inline = []) :
    events = s.blocks.map Block.ended := by
  have same : step inline ⟨[], s.blocks⟩ = step inline s := by
    rw [← step_of_spaces spaces, List.append_nil]
  exact (run.unique ((run_closing inline (Nat.zero_le _)).congr same)).1

theorem Run.unclosed_of_spaces {inline : Bool} {s : State} {events : List Event}
    (run : Run inline s events none) (spaces : s.unread inline = []) :
    unclosed inline s = s.blocks.length := by
  have none : ∀ t ∈ trace inline s, t.unread.isEmpty = true := by
    intro t inside
    have unread := unread_suffix_of_mem_trace inside
    rw [spaces, List.suffix_nil] at unread
    rw [unread]
    rfl
  have ended := congrArg List.length run.trace_events
  rw [List.length_map, run.of_spaces spaces, List.length_map] at ended
  rw [unclosed, List.countP_eq_length.mpr none, ended]

/-- A run to the end closes its blocks in the same way when some of the braces are written. -/
theorem Run.closing {inline : Bool} {s : State} {events : List Event}
    (run : Run inline s events none) (shut : ∀ t ∈ trace inline s, t.Shut) {n : Nat}
    (fits : n ≤ unclosed inline s) :
    Run inline ⟨s.rest ++ List.replicate n rightBrace, s.blocks⟩ events none := by
  generalize whole : none = ended at run
  induction run with
  | stuck => cases whole
  | @done s h =>
      rw [unclosed, trace, h] at fits
      obtain rfl : n = 0 := Nat.le_zero.mp fits
      simpa using Run.done h
  | @yield s next events more _ h run ih =>
      subst whole
      by_cases spaces : s.unread inline = []
      · -- No item is left, so the run closes all blocks and has done so behind the braces too.
        have whole := Run.yield h run
        rw [whole.unclosed_of_spaces spaces] at fits
        rw [whole.of_spaces spaces]
        exact (run_closing inline fits).congr (step_of_spaces spaces _).symm
      · have traced : trace inline s = events.map (⟨·, s.unread inline⟩) ++ trace inline next := by
          rw [trace, h]
        rw [traced, List.forall_mem_append, List.forall_mem_map] at shut
        have counted : unclosed inline s = unclosed inline next := by
          rw [unclosed, traced, List.countP_append, List.countP_eq_zero.mpr, Nat.zero_add, unclosed]
          simp [spaces]
        rw [counted] at fits
        exact .yield (step_closing h spaces shut.1 (closing_replicate n)) (ih shut.2 fits rfl)

end Parser

open UtilityCss.Parser UtilityCss.Lexer

/-- Blocks that a source leaves open may also be closed by braces at its end, some or all of
them. -/
theorem reading_closed {source : Text} {inline : Bool} {tokens : List Token}
    (cut : Lexer.tokens source = .ok tokens) (parses : (Reading.ofText source inline).error = none)
    (shut : ∀ t ∈ trace inline ⟨tokens, []⟩, t.Shut) {n : Nat}
    (left : n ≤ unclosed inline ⟨tokens, []⟩)
    (cut' : Lexer.tokens (source ++ List.replicate n '\x7d') =
      .ok (tokens ++ List.replicate n rightBrace)) :
    Reading.ofText (source ++ List.replicate n '\x7d') inline =
      ⟨(Reading.ofText source inline).events, none⟩ := by
  have run := Reading.run_of_parses cut parses
  exact Reading.ofText_eq cut' (run.closing shut left)

theorem closed_media :
    Reading.ofText "@media print\x7b.a\x7bb:c\x7d\x7d".toList false =
      ⟨(Reading.ofText "@media print\x7b.a\x7bb:c".toList false).events, none⟩ :=
  @reading_closed "@media print\x7b.a\x7bb:c".toList false
    [⟨.atKeyword, "@media".toList⟩, ⟨.whitespace, " ".toList⟩, ⟨.ident, "print".toList⟩, leftBrace,
      delim '.', ⟨.ident, ['a']⟩, leftBrace, ⟨.ident, ['b']⟩, colon, ⟨.ident, ['c']⟩]
    (by decide +kernel) (by decide +kernel) (by decide +kernel) 2 (by decide +kernel)
    (by decide +kernel)

end UtilityCss
