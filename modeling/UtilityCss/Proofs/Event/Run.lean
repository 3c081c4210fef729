import UtilityCss.Event.Parser

/-!
Runs of the parser as derivations: the steps a run takes from a state, the events they hand out and
how it ends. What every step keeps is carried through whole sources by induction on a run.
-/
namespace UtilityCss
namespace Parser

inductive Run (inline : Bool) :
    State → List Event → Option (SyntaxFault × List Token) → Prop
  | done {s} : step inline s = .done → Run inline s [] none
  | stuck {s fault rest} : step inline s = .stuck fault rest → Run inline s [] (some (fault, rest))
  | yield {s next events more stop} :
      step inline s = .yield events next → Run inline next more stop →
      Run inline s (events ++ more) stop

theorem Run.unique {inline : Bool} {s : State} {events events' : List Event}
    {stop stop' : Option (SyntaxFault × List Token)} (h : Run inline s events stop)
    (h' : Run inline s events' stop') : events = events' ∧ stop = stop' := by
  induction h generalizing events' with
  | done h => cases h' <;> simp_all
  | stuck h => cases h' <;> simp_all
  | yield h _ ih =>
      cases h' with
      | done h' => cases h.symm.trans h'
      | stuck h' => cases h.symm.trans h'
      | yield h' rest =>
          cases h.symm.trans h'
          obtain ⟨rfl, same⟩ := ih rest
          exact ⟨rfl, same⟩

theorem run_eq (inline : Bool) (found : List Event) (s : State) :
    ∃ events stop, Run inline s events stop ∧
      run inline found s = (found.reverse ++ events, stop) := by
  induction found, s using run.induct inline with
  | case1 found s h =>
      refine ⟨[], none, .done h, ?_⟩
      rw [run, h, List.append_nil]
  | case2 found s fault rest h =>
      refine ⟨[], some (fault, rest), .stuck h, ?_⟩
      rw [run, h, List.append_nil]
  | case3 found s events next h ih =>
      obtain ⟨more, stop, hrun, heq⟩ := ih
      refine ⟨events ++ more, stop, .yield h hrun, ?_⟩
      rw [run, h]
      simp [heq]

end Parser

/-- A source that is cut into tokens reads as a run of the parser over them. -/
theorem Reading.ofText_run {source : Text} {tokens : List Token}
    (cut : Lexer.tokens source = .ok tokens) (inline : Bool) :
    ∃ stop, Parser.Run inline ⟨tokens, []⟩ (Reading.ofText source inline).events stop ∧
      ((Reading.ofText source inline).error = none ↔ stop = none) := by
  obtain ⟨events, stop, hrun, heq⟩ := Parser.run_eq inline [] ⟨tokens, []⟩
  refine ⟨stop, ?_, ?_⟩ <;> simp only [Reading.ofText, cut, heq]
  · exact hrun
  · exact Option.map_eq_none_iff

/-- A source that reads without an error is read to its end. -/
theorem Reading.run_of_parses {source : Text} {tokens : List Token}
    (cut : Lexer.tokens source = .ok tokens) {inline : Bool}
    (parses : (Reading.ofText source inline).error = none) :
    Parser.Run inline ⟨tokens, []⟩ (Reading.ofText source inline).events none := by
  obtain ⟨stop, run, whole⟩ := Reading.ofText_run cut inline
  obtain rfl := whole.mp parses
  exact run

/-- A source that is not cut into tokens reads as its lexical error alone, any other as a run of the
parser over its tokens. -/
theorem Reading.ofText_cases (source : Text) (inline : Bool) :
    ((Reading.ofText source inline).events = [] ∧
      (Reading.ofText source inline).error ≠ none) ∨
    ∃ tokens stop, Lexer.tokens source = .ok tokens ∧
      Parser.Run inline ⟨tokens, []⟩ (Reading.ofText source inline).events stop ∧
      ((Reading.ofText source inline).error = none ↔ stop = none) := by
  cases cut : Lexer.tokens source with
  | error unread => exact .inl ⟨by rw [Reading.ofText, cut], by simp [Reading.ofText, cut]⟩
  | ok tokens =>
      obtain ⟨stop, hrun, hstop⟩ := Reading.ofText_run cut inline
      exact .inr ⟨tokens, stop, rfl, hrun, hstop⟩

end UtilityCss
