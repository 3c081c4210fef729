import UtilityCss.Proofs.Event.Joining

/-!
The steps between two states of the parser. A path keeps to the tokens of its items, so where all of
these are over in front of some tokens the path leads on in front of others. A run passes every
place of its source in one of two ways: the place lies in front of an item, or within one.
-/
namespace UtilityCss

theorem Nested.unique {inline : Bool} {blocks after after' : List Parser.Block}
    {events : List Event} (h : Nested inline blocks events after)
    (h' : Nested inline blocks events after') : after = after' := by
  induction h with
  | nil =>
      cases h'
      rfl
  | cons _ _ _ ih => exact ih (nested_cons_iff.mp h').2.2

namespace Parser

theorem Run.congr {inline : Bool} {s s' : State} (same : step inline s = step inline s')
    {events : List Event} {stop : Option (SyntaxFault × List Token)}
    (run : Run inline s events stop) : Run inline s' events stop := by
  cases run with
  | done h => exact .done (same ▸ h)
  | stuck h => exact .stuck (same ▸ h)
  | yield h run => exact .yield (same ▸ h) run

inductive Path (inline : Bool) : State → List Traced → State → Prop
  | nil {s} : Path inline s [] s
  | cons {s next last events ts} : step inline s = .yield events next → Path inline next ts last →
      Path inline s (events.map (⟨·, s.unread inline⟩) ++ ts) last

namespace Path
variable {inline : Bool} {s last : State} {ts : List Traced}

theorem trace_eq (h : Path inline s ts last) : trace inline s = ts ++ trace inline last := by
  induction h with
  | nil => rfl
  | cons yields _ ih =>
      rw [trace, yields]
      simp [ih]

theorem append (h : Path inline s ts last) {us : List Traced} {final : State}
    (k : Path inline last us final) : Path inline s (ts ++ us) final := by
  induction h with
  | nil => exact k
  | cons yields _ ih =>
      rw [List.append_assoc]
      exact .cons yields (ih k)

theorem nested (h : Path inline s ts last) :
    Nested inline s.blocks (ts.map Traced.event) last.blocks := by
  induction h with
  | nil => exact .nil
  | cons yields _ ih => simpa [Function.comp_def] using (step_nested yields).append ih

/-- What is left of a run after a path. -/
theorem rest_run (h : Path inline s ts last) {events : List Event}
    {stop : Option (SyntaxFault × List Token)} (run : Run inline s events stop) :
    ∃ more, events = ts.map Traced.event ++ more ∧ Run inline last more stop := by
  induction h generalizing events with
  | nil => exact ⟨events, rfl, run⟩
  | cons yields _ ih =>
      cases run with
      | done done => cases yields.symm.trans done
      | stuck stuck => cases yields.symm.trans stuck
      | yield yields' run =>
          cases yields.symm.trans yields'
          obtain ⟨more, rfl, rest⟩ := ih run
          exact ⟨more, by simp [Function.comp_def], rest⟩

theorem rest_suffix (h : Path inline s ts last) : last.rest <:+ s.rest := by
  induction h with
  | nil => exact List.suffix_refl _
  | @cons s _ _ _ _ yields _ ih =>
      exact ih.trans ((step_reads yields).rest_suffix.trans (s.unread_suffix inline))

/-- What is unread after a path stands behind all items on it. -/
theorem rest_suffix_ending (h : Path inline s ts last) : ∀ t ∈ ts, last.rest <:+ t.ending := by
  induction h with
  | nil => simp
  | cons yields rest ih =>
      rw [List.forall_mem_append, List.forall_mem_map]
      exact ⟨fun e inside =>
        rest.rest_suffix.trans ((step_reads yields).rest_suffix_ending inside), ih⟩

/-- A path whose items are over in front of `z` leads on in front of `z'`, if that does not change
what the stop of any item looks like from within the path. -/
theorem run_replace {x z : List Token} {blocks : List Block}
    (h : Path inline ⟨x ++ z, blocks⟩ ts last) (ends : ∀ t ∈ ts, t.EndsBefore z) {z' : List Token}
    (look : ∀ u, u <:+ x → u ≠ [] → (Item.scan (u ++ z')).stop = (Item.scan (u ++ z)).stop)
    {y : List Token} (rest : last.rest = y ++ z) {events : List Event}
    {stop : Option (SyntaxFault × List Token)}
    (run : Run inline ⟨y ++ z', last.blocks⟩ events stop) :
    Run inline ⟨x ++ z', blocks⟩ (ts.map Traced.event ++ events) stop := by
  generalize start : (⟨x ++ z, blocks⟩ : State) = s at h
  induction h generalizing x blocks with
  | nil =>
      subst start
      rw [List.append_cancel_right rest]
      exact run
  | cons yields path ih =>
      subst start
      obtain ⟨here, later⟩ := List.forall_mem_append.mp ends
      obtain ⟨e, inside⟩ := List.exists_mem_of_ne_nil _ (step_reads yields).events_ne_nil
      have first := here _ (List.mem_map_of_mem inside)
      have alike : Alike z z' (step inline ⟨x ++ z, blocks⟩) (step inline ⟨x ++ z', blocks⟩) := by
        refine step_alike yields inside first fun _ u suffix unread => ?_
        have some : u ≠ [] := by
          rintro rfl
          obtain ⟨r, some, ending⟩ := first
          have suffix := Traced.ending_suffix ⟨e, State.unread inline ⟨x ++ z, blocks⟩⟩
          rw [ending, unread] at suffix
          exact some (List.suffix_nil.mp (List.suffix_append_self_iff.mp suffix))
        simp only [isDeclaration, look u suffix some]
      obtain ⟨w, left, step⟩ := alike.yields yields
      have suffix : w <:+ x := by
        have inRest :=
          (step_reads yields).rest_suffix.trans (State.unread_suffix inline ⟨x ++ z, blocks⟩)
        rw [left] at inRest
        exact List.suffix_append_self_iff.mp inRest
      have next := ih later (fun u inW => look u (inW.trans suffix)) rest run (by rw [← left])
      simpa [Function.comp_def] using Run.yield step next

end Path

/-- Where a place of a source lies, given by the tokens behind it, once a path has come to it: in
front of the next item, or within that. -/
inductive Meets (inline : Bool) (s : State) (back : List Token) : Prop
  | before : s.unread inline <:+ back → Meets inline s back
  | within {u events next e} : u ≠ [] → s.unread inline = u ++ back →
      step inline s = .yield events next → e ∈ events →
      (Traced.mk e (s.unread inline)).ending <:+ back → Meets inline s back

/-- A run to the end comes to every place of its source. -/
theorem Run.meets {inline : Bool} {front back : List Token} {blocks : List Block}
    {events : List Event} (run : Run inline ⟨front ++ back, blocks⟩ events none) :
    ∃ ts y blocks', Path inline ⟨front ++ back, blocks⟩ ts ⟨y ++ back, blocks'⟩ ∧
      (∀ t ∈ ts, t.EndsBefore back) ∧ Meets inline ⟨y ++ back, blocks'⟩ back := by
  generalize start : (⟨front ++ back, blocks⟩ : State) = s at run
  generalize whole : none = ended at run
  induction run generalizing front blocks with
  | stuck => cases whole
  | done done =>
      subst start
      exact ⟨[], front, blocks, .nil, by simp, .before (by simp [unread_of_done done])⟩
  | @yield s next events more _ yields run ih =>
      subst start whole
      have reads := step_reads yields
      have inRest := State.unread_suffix inline ⟨front ++ back, blocks⟩
      obtain front' | ⟨u, unread⟩ :=
        List.suffix_or_suffix_of_suffix inRest (List.suffix_append front back)
      · exact ⟨[], front, blocks, .nil, by simp, .before front'⟩
      by_cases some : u = []
      · subst some
        exact ⟨[], front, blocks, .nil, by simp, .before (unread ▸ List.suffix_refl _)⟩
      obtain ⟨e, inside⟩ := List.exists_mem_of_ne_nil _ reads.events_ne_nil
      have ending := Traced.ending_suffix ⟨e, State.unread inline ⟨front ++ back, blocks⟩⟩
      obtain within | ⟨r, ends⟩ := List.suffix_or_suffix_of_suffix ending ⟨u, unread⟩
      · exact ⟨[], front, blocks, .nil, by simp, .within some unread.symm yields inside within⟩
      by_cases empty : r = []
      · subst empty
        exact ⟨[], front, blocks, .nil, by simp,
          .within some unread.symm yields inside (ends ▸ List.suffix_refl _)⟩
      -- The item is over in front of the place, which the rest of the run comes to.
      obtain ⟨y, rest⟩ : ∃ y, next.rest = y ++ back := by
        obtain ⟨first, r, rfl⟩ := List.exists_cons_of_ne_nil empty
        obtain rest | ⟨rest, _⟩ := reads.rest_cases inside
        · exact ⟨r, by rw [rest, ← ends]; rfl⟩
        · exact ⟨first :: r, by rw [rest, ← ends]⟩
      obtain ⟨ts, w, blocks', path, before, meets⟩ := ih (by rw [← rest]) rfl
      refine ⟨_, w, blocks', .cons yields path, ?_, meets⟩
      rw [List.forall_mem_append, List.forall_mem_map]
      exact ⟨fun e' inside' => ⟨r, empty, (reads.ending_eq inside' inside).trans ends.symm⟩, before⟩

theorem Reads.eq_of_isDeclared {blocks : List Block} {unread : List Token} {events : List Event}
    {next : State} (h : Reads blocks unread events next) {e : Event} (inside : e ∈ events)
    (declared : e.isDeclared = true) : events = [e] := by
  cases h with
  | selectors _ _ _ => obtain ⟨_, _, rfl | rfl⟩ := mem_selectorEvents inside <;> cases declared
  | _ => rw [List.mem_singleton.mp inside]

theorem Reads.name_of_isDeclared {blocks : List Block} {unread : List Token} {events : List Event}
    {next : State} (h : Reads blocks unread events next) {e : Event} (inside : e ∈ events)
    (declared : e.isDeclared = true) : ∃ name rest, unread = name :: rest := by
  cases h with
  | @ended block _ =>
      rw [List.mem_singleton.mp inside] at declared
      cases block <;> cases declared
  | selectors _ _ _ => obtain ⟨_, _, rfl | rfl⟩ := mem_selectorEvents inside <;> cases declared
  | _ => exact ⟨_, _, rfl⟩

/-- The path to a declaration. -/
theorem path_of_trace {inline : Bool} {s : State} {before after : List Traced} {t : Traced}
    (split : trace inline s = before ++ t :: after) (declared : t.event.isDeclared = true) :
    ∃ here next, Path inline s before here ∧ step inline here = .yield [t.event] next ∧
      t.unread = here.unread inline := by
  induction s using trace.induct inline generalizing before with
  | case1 s done =>
      rw [trace, done] at split
      simp at split
  | case2 s fault rest stuck =>
      rw [trace, stuck] at split
      simp at split
  | case3 s events next yields ih =>
      rw [trace, yields] at split
      simp only at split
      obtain ⟨others, rfl, later⟩ | ⟨others, here, later⟩ := List.append_eq_append_iff.mp split
      · obtain ⟨state, last, path, step, unread⟩ := ih later
        exact ⟨state, last, .cons yields path, step, unread⟩
      · cases others with
        | nil =>
            obtain ⟨state, last, path, step, unread⟩ := @ih [] later.symm
            have whole := Path.cons yields path
            rw [here, List.append_nil, List.append_nil] at whole
            exact ⟨state, last, whole, step, unread⟩
        | cons first others =>
            obtain ⟨rfl, -⟩ := List.cons.inj later
            obtain ⟨e, inside, rfl⟩ :=
              List.mem_map.mp (here ▸ List.mem_append_right before List.mem_cons_self)
            obtain rfl := (step_reads yields).eq_of_isDeclared inside declared
            cases before with
            | nil => exact ⟨s, next, .nil, yields, rfl⟩
            | cons => simp at here

end Parser
end UtilityCss
