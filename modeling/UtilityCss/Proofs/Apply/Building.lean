import UtilityCss.Apply
import UtilityCss.Proofs.Event.Nesting

/-!
The index under construction keeps step with the blocks of the word it is fed: its depth counts the
open at-rules, and an entry is under way only inside a ruleset that is outermost. Rulesets do not
hold rulesets, so no entry is ever opened in another, and a nested word always makes an index.
-/
namespace UtilityCss.ApplyIndex
open UtilityCss.Parser

structure Builder.Tracks (b : Builder) (blocks : List Block) : Prop where
  depth : b.depth = blocks.count .atRule
  entry : b.entry.isSome = true → blocks.getLast? = some .ruleset

namespace Builder

theorem tracks_start : Tracks start [] :=
  ⟨rfl, by simp [start]⟩

theorem getLast?_cons_of_some {block : Block} {blocks : List Block}
    (h : blocks.getLast? = some .ruleset) : (block :: blocks).getLast? = some .ruleset := by
  rw [List.getLast?_cons, h, Option.getD_some]

theorem Tracks.eq_nil {b : Builder} {blocks : List Block} (h : b.Tracks blocks)
    (depth : b.depth = 0) (fits : blocks.head? ≠ some .ruleset) : blocks = [] := by
  cases blocks with
  | nil => rfl
  | cons block blocks =>
      have count := h.depth.symm.trans depth
      cases block with
      | atRule => simp at count
      | ruleset => simp at fits

theorem Tracks.beginAtRule {b : Builder} {blocks : List Block} (h : b.Tracks blocks) :
    Tracks { b with depth := b.depth + 1 } (.atRule :: blocks) where
  depth := by simp [h.depth]
  entry := fun e => getLast?_cons_of_some (h.entry e)

theorem Tracks.endAtRule {b : Builder} {blocks : List Block} (h : b.Tracks (.atRule :: blocks)) :
    Tracks { b with depth := b.depth - 1 } blocks where
  depth := by simp [h.depth]
  entry := by
    intro e
    have last := h.entry e
    cases blocks with
    | nil => simp at last
    | cons block blocks => rwa [List.getLast?_cons_cons] at last

theorem Tracks.ruleset {b : Builder} {blocks : List Block} (h : b.Tracks blocks) :
    b.Tracks (.ruleset :: blocks) where
  depth := by simp [h.depth]
  entry := fun e => getLast?_cons_of_some (h.entry e)

theorem Tracks.openEntry {b : Builder} {blocks : List Block} (name : Text) (h : b.Tracks blocks)
    (depth : b.depth = 0) (fits : blocks.head? ≠ some .ruleset) :
    ∃ b', b.openEntry name = .ok b' ∧ b'.Tracks (.ruleset :: blocks) := by
  obtain rfl := h.eq_nil depth fits
  cases hentry : b.entry with
  | some entry => simpa using h.entry (by simp [hentry])
  | none =>
      refine ⟨{ b with entry := some (name, []) }, by simp [Builder.openEntry, hentry], ?_⟩
      exact ⟨by simp [depth], fun _ => rfl⟩

theorem Tracks.endRuleset {b : Builder} {blocks : List Block} (h : b.Tracks (.ruleset :: blocks)) :
    Tracks (if b.depth = 0 then b.closeEntry else b) blocks := by
  have count : b.depth = blocks.count .atRule := by simpa using h.depth
  split
  next => cases hentry : b.entry <;> simpa [closeEntry, hentry] using ⟨count, by simp [hentry]⟩
  next depth =>
    refine ⟨count, fun e => ?_⟩
    have last := h.entry e
    cases blocks with
    | nil => simp [count] at depth
    | cons block blocks => rwa [List.getLast?_cons_cons] at last

theorem Tracks.declare {b : Builder} {blocks : List Block} (h : b.Tracks blocks) (e : Event) :
    Tracks (if b.depth = 0 then b.declare e else b) blocks := by
  split
  · exact ⟨h.depth, fun some => h.entry (by simpa [Builder.declare] using some)⟩
  · exact h

theorem Tracks.event {inline : Bool} {b : Builder} {blocks : List Block} {e : Event}
    (h : b.Tracks blocks) (fits : e.Fits inline blocks.head?) :
    ∃ b', b.event e = .ok b' ∧ b'.Tracks (e.blocksAfter blocks) := by
  cases e with
  | beginAtRule name values => exact ⟨_, rfl, h.beginAtRule⟩
  | endAtRule =>
      obtain ⟨blocks, rfl⟩ := List.head?_eq_some_iff.mp fits
      exact ⟨_, rfl, h.endAtRule⟩
  | beginRuleset selector =>
      simp only [Builder.event]
      split
      next name _ =>
        split
        next depth => exact h.openEntry name depth fits.1
        next => exact ⟨_, rfl, h.ruleset⟩
      next => exact ⟨_, rfl, h.ruleset⟩
  | endRuleset =>
      obtain ⟨blocks, rfl⟩ := List.head?_eq_some_iff.mp fits
      exact ⟨_, rfl, h.endRuleset⟩
  | declaration name values | customProperty name raw => exact ⟨_, rfl, h.declare _⟩
  | atRule _ _ | selectorGroup _ | marker _ | comment _ => exact ⟨b, rfl, h⟩

theorem Tracks.events {inline : Bool} {blocks after : List Block} {events : List Event}
    (word : Nested inline blocks events after) {b : Builder} (h : b.Tracks blocks) :
    ∃ b', events.foldlM Builder.event b = .ok b' ∧ b'.Tracks after := by
  induction word generalizing b with
  | nil => exact ⟨b, rfl, h⟩
  | cons fits _ _ ih =>
      obtain ⟨middle, hevent, tracks⟩ := h.event fits
      obtain ⟨b', hevents, tracks⟩ := ih tracks
      refine ⟨b', ?_, tracks⟩
      rw [List.foldlM_cons, hevent]
      exact hevents

end Builder

/-- Every nested word from the top makes an index, also one that leaves blocks open. -/
theorem ofEvents_ok {inline : Bool} {blocks : List Block} {events : List Event}
    (word : Nested inline [] events blocks) : ∃ index, ofEvents events = .ok index := by
  obtain ⟨b, hevents, _⟩ := Builder.Tracks.events word Builder.tracks_start
  refine ⟨b.index, ?_⟩
  rw [ofEvents, hevents]
  rfl

/-- Nothing but a syntax error keeps styles from having an index. -/
theorem ofStyles_eq (source : String) (css : Text) :
    ∃ index, ofStyles source css =
      match (Reading.ofText css false).error with
      | some error => .error (.syntaxError source error)
      | none => .ok index := by
  obtain ⟨blocks, word, _⟩ := Reading.nested css false
  obtain ⟨index, hindex⟩ := ofEvents_ok word
  refine ⟨index, ?_⟩
  simp only [ofStyles]
  simp only [hindex]
  cases (Reading.ofText css false).error <;> rfl

end UtilityCss.ApplyIndex
