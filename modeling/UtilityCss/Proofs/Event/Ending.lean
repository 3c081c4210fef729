import UtilityCss.Event.Cursor
import UtilityCss.Proofs.Basic
import UtilityCss.Proofs.Event.Joining

/-!
Reading comes to an end, and soon. Every step pays for the events it hands out with tokens, and for
the blocks it opens as well, since their ends are events that need no token of their own. So there
are no more events than tokens, and who asks for them one at a time is told of each once, of at most
one error behind them, and of nothing from then on.
-/
namespace UtilityCss
open UtilityCss.Token
namespace Parser

theorem splitGroupsFrom_length (depth : Nat) (part : List Token) (found : List (List Token))
    (tokens : List Token) :
    (splitGroupsFrom depth part found tokens).length +
        (splitGroupsFrom depth part found tokens).flatten.length =
      found.length + found.flatten.length + part.length + tokens.length + 1 := by
  induction tokens generalizing depth part found with
  | nil =>
      simp [splitGroupsFrom]
      omega
  | cons token rest ih =>
      rw [splitGroupsFrom]
      split
      all_goals
        rw [ih]
        simp
        omega

/-- A token is in one of the groups or a comma behind one. -/
theorem splitGroups_length (tokens : List Token) :
    (splitGroups tokens).length + (splitGroups tokens).flatten.length = tokens.length + 1 := by
  rw [splitGroups, splitGroupsFrom_length]
  simp

theorem length_selectorEvents (groups : List (List Token)) :
    (selectorEvents groups).length = groups.length := by
  induction groups with
  | nil => rfl
  | cons group rest ih =>
      cases rest with
      | nil => rfl
      | cons => simpa [selectorEvents] using ih

/-- A selector list of n groups takes up n tokens and n - 1 commas at least. -/
theorem length_groups {tokens : List Token} {groups : List (List Token)}
    (parts : (splitGroups tokens).map trimmedValues = groups)
    (full : groups.any (·.isEmpty) = false) : 2 * groups.length ≤ tokens.length + 1 := by
  subst parts
  have filled : ∀ group ∈ splitGroups tokens, group ≠ [] := by
    intro group inside none
    have empty : trimmedValues group = [] := by rw [none]; rfl
    simp only [List.any_map, List.any_eq_false] at full
    exact full group inside (by simp [empty])
  have cover := splitGroups_length tokens
  have inGroups := length_le_flatten filled
  rw [List.length_map]
  omega

theorem Item.length_after_brace {tokens : List Token} (block : (scan tokens).stop = .leftBrace) :
    (scan tokens).tokens.length + 1 + (scan tokens).after.length = tokens.length := by
  have whole := scan_length tokens
  have some := @scan_rest tokens (by simp [block])
  rw [after, block, List.length_drop]
  omega

/-- An item has at least as many tokens as it reads as events and opens blocks, save that the end of
a block may be read off the block alone. -/
theorem Reads.size_le {blocks : List Block} {unread : List Token} {events : List Event}
    {next : State} (h : Reads blocks unread events next) :
    events.length + next.size ≤ unread.length + blocks.length := by
  cases h with
  | ended | closed | comment | marker _ =>
      simp [State.size]
      omega
  | @atRule _ _ rest _ =>
      have short := (Item.after_suffix rest).length_le
      simp only [State.size, List.length_cons, List.length_nil]
      omega
  | @beginAtRule _ _ rest block =>
      have whole := Item.length_after_brace block
      simp only [State.size, List.length_cons, List.length_nil]
      omega
  | @selectors _ _ groups block parts full =>
      have whole := Item.length_after_brace block
      have listed := length_groups parts full
      simp only [State.size, List.length_cons, length_selectorEvents]
      omega
  | @declaration _ _ rest _ more _ found _ =>
      have short := (Item.after_suffix more).length_le
      have colon := (skipTrivial_suffix false rest).length_le
      rw [found] at colon
      simp only [State.size, List.length_cons, List.length_nil] at colon ⊢
      omega

theorem step_size_le {inline : Bool} {s next : State} {events : List Event}
    (h : step inline s = .yield events next) : events.length + next.size ≤ s.size := by
  have paid := (step_reads h).size_le
  have skipped := (s.unread_suffix inline).length_le
  simp only [State.size] at paid ⊢
  omega

/-- A run hands out no more events than it has tokens to read and blocks to close. -/
theorem Run.length_le {inline : Bool} {s : State} {events : List Event}
    {stop : Option (SyntaxFault × List Token)} (run : Run inline s events stop) :
    events.length ≤ s.size := by
  induction run with
  | done | stuck => exact Nat.zero_le _
  | yield h _ ih =>
      have paid := step_size_le h
      rw [List.length_append]
      omega

end Parser

open UtilityCss.Parser

namespace Cursor

/-- What a cursor answers from now on: the items one after the other, and nothing behind them. -/
def HandsOut (c : Cursor) (items : List (Except SyntaxError Event)) : Prop :=
  ∀ n, c.answer n = items[n]?

theorem handsOut_of_finished {c : Cursor} (finished : c.finished = true) : c.HandsOut [] := by
  intro n
  have stays : c.next = (none, c) := by rw [next, if_pos finished]
  induction n with
  | zero => rw [answer, stays]; rfl
  | succ n ih => rw [answer, stays]; exact ih

theorem handsOut_nil {c behind : Cursor} (ends : c.next = (none, behind))
    (finished : behind.finished = true) : c.HandsOut [] := by
  intro n
  cases n with
  | zero => rw [answer, ends]; rfl
  | succ n => rw [answer, ends]; exact handsOut_of_finished finished n

theorem HandsOut.cons {c behind : Cursor} {item : Except SyntaxError Event}
    {items : List (Except SyntaxError Event)} (first : c.next = (some item, behind))
    (h : behind.HandsOut items) : c.HandsOut (item :: items) := by
  intro n
  cases n with
  | zero => rw [answer, first]; rfl
  | succ n => rw [answer, first]; exact h n

theorem handsOut_error {c behind : Cursor} {error : SyntaxError}
    (fails : c.next = (some (.error error), behind)) (finished : behind.finished = true) :
    c.HandsOut [.error error] :=
  .cons fails (handsOut_of_finished finished)

/-- A cursor in the midst of a source that is cut into tokens. -/
def within (source : Text) (inline : Bool) (waiting : List Event) (s : State) : Cursor :=
  ⟨source, inline, s, waiting, none, false⟩

/-- Events that wait come first. -/
theorem HandsOut.waiting {source : Text} {inline : Bool} {s : State}
    {items : List (Except SyntaxError Event)} (h : (within source inline [] s).HandsOut items)
    (events : List Event) : (within source inline events s).HandsOut (events.map .ok ++ items) := by
  induction events with
  | nil => exact h
  | cons event events ih => exact .cons rfl ih

/-- What a run of the parser comes to as items of a source. -/
def itemsOf (source : Text) (events : List Event) (stop : Option (SyntaxFault × List Token)) :
    List (Except SyntaxError Event) :=
  events.map .ok ++
    (stop.map fun (fault, rest) =>
      SyntaxError.before source (Token.source rest) fault).toList.map .error

theorem handsOut_of_run {inline : Bool} {s : State} {events : List Event}
    {stop : Option (SyntaxFault × List Token)} (run : Run inline s events stop) (source : Text) :
    (within source inline [] s).HandsOut (itemsOf source events stop) := by
  induction run with
  | @done s h =>
      have ends : (within source inline [] s).next =
          (none, { within source inline [] s with finished := true }) := by
        simp only [next, advance, within, h]
        rfl
      exact handsOut_nil ends rfl
  | @stuck s fault rest h =>
      have fails : (within source inline [] s).next =
          (some (.error (.before source (Token.source rest) fault)),
            { within source inline [] s with finished := true }) := by
        simp only [next, advance, within, h]
        rfl
      exact handsOut_error fails rfl
  | @yield s state events more stop h _ ih =>
      obtain ⟨event, waiting, rfl⟩ := List.exists_cons_of_ne_nil (step_reads h).events_ne_nil
      have first : (within source inline [] s).next =
          (some (.ok event), within source inline waiting state) := by
        simp only [next, advance, within, h]
        rfl
      have items : itemsOf source (event :: waiting ++ more) stop =
          .ok event :: (waiting.map .ok ++ itemsOf source more stop) := by
        simp [itemsOf]
      rw [items]
      exact .cons first (ih.waiting waiting)

theorem start_handsOut (source : Text) (inline : Bool) :
    (start source inline).HandsOut ((Reading.ofText source inline).events.map .ok ++
      (Reading.ofText source inline).error.toList.map .error) := by
  cases cut : Lexer.tokens source with
  | error unread =>
      have reading : Reading.ofText source inline =
          ⟨[], some (.before source unread .unterminatedString)⟩ := by rw [Reading.ofText, cut]
      have fails : (start source inline).next =
          (some (.error (.before source unread .unterminatedString)),
          { start source inline with finished := true }) := by
        simp only [next, advance, start, cut]
        rfl
      rw [reading]
      exact handsOut_error fails rfl
  | ok tokens =>
      obtain ⟨events, stop, run, _⟩ := run_eq inline [] ⟨tokens, []⟩
      have opened : start source inline = within source inline [] ⟨tokens, []⟩ := by
        simp only [start, cut, within]
      rw [Reading.ofText_eq cut run, opened]
      exact handsOut_of_run run source

end Cursor

theorem Reading.length_le (source : Text) (inline : Bool) :
    (Reading.ofText source inline).events.length ≤
      ((Lexer.tokens source).toOption.getD []).length := by
  obtain ⟨none, _⟩ | ⟨tokens, stop, cut, run, _⟩ := Reading.ofText_cases source inline
  · rw [none]
    exact Nat.zero_le _
  · rw [cut]
    exact run.length_le

/-- Asked for one at a time, the events of a source come in order, then its error if it has one, and
from then on nothing. There are no more events than tokens, and none where the source is not cut
into tokens. -/
theorem reading_ends (source : Text) (inline : Bool) :
    let reading := Reading.ofText source inline
    let tokens := (Lexer.tokens source).toOption.getD []
    let items : List (Except SyntaxError Event) :=
      reading.events.map .ok ++ reading.error.toList.map .error
    (∀ n, (Cursor.start source inline).answer n = items[n]?) ∧
      reading.events.length ≤ tokens.length ∧
      ∀ n, tokens.length < n → (Cursor.start source inline).answer n = none := by
  intro reading tokens items
  have answers : ∀ n, (Cursor.start source inline).answer n = items[n]? :=
    Cursor.start_handsOut source inline
  have few : reading.events.length ≤ tokens.length := Reading.length_le source inline
  refine ⟨answers, few, fun n asked => ?_⟩
  have once : reading.error.toList.length ≤ 1 := by cases reading.error <;> simp
  rw [answers]
  apply List.getElem?_eq_none
  simp only [items, List.length_append, List.length_map]
  omega

end UtilityCss
