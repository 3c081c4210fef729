import UtilityCss.Proofs.Apply.Building
import UtilityCss.Proofs.Event.Keeping
import UtilityCss.Proofs.Event.Rereading

/-!
What the index of utilities holds. Every ruleset outside all at-rule blocks whose selector list ends
with a class by itself makes one entry, in order. What stands in front of the last selector is not
looked at, so a list of several selectors counts as the last of them.
-/
namespace UtilityCss

/-- A ruleset with its selectors and what is declared in it, but for what its at-rule blocks
hold. -/
structure Rule where
  selectors : List (List Token)
  declared : List Event
  deriving DecidableEq

namespace Event

/-- What is declared up to the end of a ruleset, where a number of at-rule blocks are open in it. -/
def declared (depth : Nat) : List Event → List Event
  | [] => []
  | .endRuleset :: rest => if depth = 0 then [] else declared depth rest
  | .beginAtRule _ _ :: rest => declared (depth + 1) rest
  | .endAtRule :: rest => declared (depth - 1) rest
  | .declaration name values :: rest =>
    if depth = 0 then .declaration name values :: declared depth rest else declared depth rest
  | .customProperty name raw :: rest =>
    if depth = 0 then .customProperty name raw :: declared depth rest else declared depth rest
  | .atRule _ _ :: rest | .selectorGroup _ :: rest | .beginRuleset _ :: rest | .marker _ :: rest
  | .comment _ :: rest => declared depth rest

/-- The rulesets outside all at-rule blocks, where a number of those are open and the given
selectors of a list have been read. -/
def outerRules (depth : Nat) (groups : List (List Token)) : List Event → List Rule
  | [] => []
  | .selectorGroup selector :: rest => outerRules depth (groups ++ [selector]) rest
  | .beginRuleset last :: rest =>
    if depth = 0 then ⟨groups ++ [last], declared 0 rest⟩ :: outerRules depth [] rest
    else outerRules depth [] rest
  | .beginAtRule _ _ :: rest => outerRules (depth + 1) [] rest
  | .endAtRule :: rest => outerRules (depth - 1) [] rest
  | .atRule _ _ :: rest | .endRuleset :: rest | .declaration _ _ :: rest
  | .customProperty _ _ :: rest | .marker _ :: rest | .comment _ :: rest => outerRules depth [] rest

end Event

namespace ApplyIndex
open UtilityCss.Parser

/-- The entry that a ruleset makes. -/
def entryOf (rule : Rule) : Option (Text × Text) :=
  (rule.selectors.getLast?.bind Builder.className?).map fun name =>
    (name, Text.trim (rule.declared.flatMap Event.written))

namespace Builder

/-- The entry under way, once what is still declared has been added to it, and those that are
made. -/
def expected (b : Builder) (events : List Event) : List (Text × Text) :=
  (b.entry.map fun (name, body) =>
    (name, Text.trim (body.reverse.flatten ++
      (Event.declared b.depth events).flatMap Event.written))).toList ++ b.index.entries

theorem expected_declare {b : Builder} {e : Event} {rest : List Event}
    (here : Event.declared b.depth (e :: rest) =
      if b.depth = 0 then e :: Event.declared b.depth rest else Event.declared b.depth rest) :
    (if b.depth = 0 then b.declare e else b).expected rest = b.expected (e :: rest) := by
  split
  next depth =>
    rw [if_pos depth] at here
    cases entry : b.entry <;> simp [expected, declare, entry, here]
  next depth =>
    rw [if_neg depth] at here
    rw [expected, expected, here]

theorem expected_end {b : Builder} {rest : List Event} :
    (if b.depth = 0 then b.closeEntry else b).expected rest = b.expected (.endRuleset :: rest) := by
  split
  next depth => cases entry : b.entry <;> simp [expected, closeEntry, entry, Event.declared, depth]
  next depth => simp [expected, Event.declared, depth]

theorem depth_closeEntry (b : Builder) : b.closeEntry.depth = b.depth := by
  rw [closeEntry]
  split <;> rfl

theorem Tracks.entry_eq_none {b : Builder} (h : b.Tracks []) : b.entry = none := by
  cases entry : b.entry with
  | none => rfl
  | some _ => simpa using h.entry (by simp [entry])

/-- What an index holds once a word is read, as far as it has been read: the entries that are made,
the one under way, and those of the rulesets to come. -/
def foretold (groups : List (List Token)) (b : Builder) (events : List Event) :
    List (Text × Text) :=
  ((Event.outerRules b.depth groups events).filterMap entryOf).reverse ++ b.expected events

/-- No event changes what is foretold. -/
theorem Tracks.foretold_event {inline : Bool} {b b' : Builder} {blocks : List Block} {e : Event}
    (h : b.Tracks blocks) (fits : e.Fits inline blocks.head?) (step : b.event e = .ok b')
    (groups : List (List Token)) (rest : List Event) :
    ∃ groups', foretold groups' b' rest = foretold groups b (e :: rest) := by
  cases e with
  | beginAtRule name values | endAtRule | atRule name values | marker text | comment text =>
      cases step
      exact ⟨[], rfl⟩
  | selectorGroup selector =>
      cases step
      exact ⟨groups ++ [selector], rfl⟩
  | declaration name values | customProperty name raw =>
      cases step
      refine ⟨[], ?_⟩
      rw [foretold, expected_declare rfl]
      split <;> rfl
  | endRuleset =>
      cases step
      refine ⟨[], ?_⟩
      rw [foretold, expected_end]
      split
      · rw [depth_closeEntry]
        rfl
      · rfl
  | beginRuleset selector =>
      refine ⟨[], ?_⟩
      by_cases depth : b.depth = 0
      · obtain rfl := h.eq_nil depth fits.1
        have entry := h.entry_eq_none
        cases name : className? selector with
        | none =>
            simp only [Builder.event, name, Except.ok.injEq] at step
            subst step
            simp [foretold, Event.outerRules, depth, expected, entry, entryOf, name]
        | some name' =>
            simp only [Builder.event, name, if_pos depth] at step
            rw [Builder.openEntry, entry] at step
            cases step
            simp [foretold, Event.outerRules, depth, expected, entry, entryOf, name]
      · have same : b' = b := by
          simp only [Builder.event, if_neg depth] at step
          split at step <;> simpa using step.symm
        subst same
        simp [foretold, Event.outerRules, depth, expected, Event.declared]

theorem Tracks.foretold_events {inline : Bool} {blocks after : List Block} {events : List Event}
    (word : Nested inline blocks events after) {b b' : Builder} (h : b.Tracks blocks)
    (fold : events.foldlM Builder.event b = .ok b') (groups : List (List Token)) :
    ∃ groups', foretold groups' b' [] = foretold groups b events := by
  induction word generalizing b groups with
  | nil =>
      cases fold
      exact ⟨groups, rfl⟩
  | cons fits _ _ ih =>
      obtain ⟨middle, step, tracks⟩ := h.event fits
      rw [List.foldlM_cons, step] at fold
      obtain ⟨groups', same⟩ := h.foretold_event fits step groups _
      rw [← same]
      exact ih tracks fold groups'

end Builder

/-- The entries of an index are those that its rulesets outside at-rule blocks make, newest
first. -/
theorem ofEvents_entries {inline : Bool} {events : List Event} (word : Nested inline [] events []) :
    ∃ index, ofEvents events = .ok index ∧
      index.entries = ((Event.outerRules 0 [] events).filterMap entryOf).reverse := by
  obtain ⟨b, fold, tracks⟩ := Builder.Tracks.events word Builder.tracks_start
  refine ⟨b.index, by rw [ofEvents, fold]; rfl, ?_⟩
  obtain ⟨_, foretold⟩ := Builder.Tracks.foretold_events word Builder.tracks_start fold []
  simpa [Builder.foretold, Builder.expected, Builder.start, Event.outerRules,
    tracks.entry_eq_none] using foretold

end ApplyIndex

/-- The selector of a class by itself. -/
def classSelector (name : Text) : List Token :=
  [⟨.delim, ['.']⟩, ⟨.ident, name⟩]

theorem Event.mem_outerRules {rule : Rule} {depth : Nat} {groups : List (List Token)}
    {events : List Event} (h : rule ∈ outerRules depth groups events) :
    ∃ last, .beginRuleset last ∈ events ∧ rule.selectors.getLast? = some last := by
  induction events generalizing depth groups with
  | nil => cases h
  | cons e rest ih =>
      have later {depth' groups'} (h : rule ∈ outerRules depth' groups' rest) :
          ∃ last, .beginRuleset last ∈ e :: rest ∧ rule.selectors.getLast? = some last :=
        have ⟨last, inside, found⟩ := ih h
        ⟨last, List.mem_cons_of_mem _ inside, found⟩
      cases e with
      | beginRuleset last =>
          rw [outerRules] at h
          split at h
          · obtain rfl | h := List.mem_cons.mp h
            · exact ⟨last, List.mem_cons_self, List.getLast?_concat⟩
            · exact later h
          · exact later h
      | _ => exact later h

namespace Parser

theorem startsSolid_trimWhitespace (tokens : List Token) :
    StartsSolid (Token.trimWhitespace tokens) := by
  intro token found
  obtain ⟨tail, front⟩ : Token.trimWhitespace tokens <+: tokens.dropWhile (·.isWhitespace) :=
    Token.trimEnd_prefix _
  have head := List.head?_dropWhile_not (·.isWhitespace) tokens
  rwa [← front, List.head?_append, found] at head

theorem trimWhitespace_idem (tokens : List Token) :
    Token.trimWhitespace (Token.trimWhitespace tokens) = Token.trimWhitespace tokens :=
  trimWhitespace_eq_self (startsSolid_trimWhitespace tokens) (endsSolid_trimEnd _)

/-- A selector that a reading hands out is trimmed. -/
theorem Reads.selector_trimmed {blocks : List Block} {unread : List Token} {events : List Event}
    {next : State} (h : Reads blocks unread events next) {selector : List Token}
    (inside : .beginRuleset selector ∈ events) : Token.trimWhitespace selector = selector := by
  cases h with
  | ended | closed =>
      simp only [List.mem_singleton, Block.ended] at inside
      split at inside <;> cases inside
  | comment | marker _ | atRule _ | beginAtRule _ => simp at inside
  | declaration _ _ _ =>
      rw [List.mem_singleton, declarationEvent] at inside
      split at inside <;> cases inside
  | selectors _ groups _ =>
      subst groups
      obtain ⟨group, member, same | same⟩ := mem_selectorEvents inside <;> cases same
      obtain ⟨part, _, rfl⟩ := List.mem_map.mp member
      exact trimWhitespace_idem _

end Parser

open UtilityCss.Parser

/-- A selector that a reading hands out has a class name exactly where it is that class by
itself. -/
theorem Reading.className?_eq_some {source : Text} {inline : Bool} {selector : List Token}
    (inside : .beginRuleset selector ∈ (Reading.ofText source inline).events) {name : Text} :
    ApplyIndex.Builder.className? selector = some name ↔ selector = classSelector name := by
  obtain ⟨none, _⟩ | ⟨tokens, _, cut, run, _⟩ := Reading.ofText_cases source inline
  · rw [none] at inside
    cases inside
  obtain ⟨t, traced, event⟩ :
      ∃ t ∈ trace inline ⟨tokens, []⟩, t.event = .beginRuleset selector := by
    rw [← run.trace_events] at inside
    exact List.mem_map.mp inside
  obtain ⟨_, _, _, _, reads, read⟩ := mem_trace traced
  have trimmed := reads.selector_trimmed (event ▸ read)
  have lexes := Lexer.tokens_eq_ok_iff.mp cut
  have named (here : selector = classSelector name) : name ≠ [] := by
    obtain ⟨left, kept, _⟩ := run.essential_eq lexes.regular
    have standsFor : (⟨.ident, name⟩ : Token) ∈ t.tokens := by
      simp [Traced.tokens, event, here, classSelector]
    have essential : (⟨.ident, name⟩ : Token) ∈ Token.essential tokens := by
      rw [kept]
      refine List.mem_append_left _ (List.mem_filter.mpr ⟨?_, rfl⟩)
      exact List.mem_flatMap.mpr ⟨t, traced, standsFor⟩
    exact lexes.text_ne_nil _ (List.mem_of_mem_filter essential)
  rw [ApplyIndex.Builder.className?, trimmed]
  constructor
  · intro found
    split at found
    · split at found <;> cases found
      rfl
    · cases found
  · intro here
    simp [here, classSelector, named here]

namespace ApplyIndex

theorem entryOf_eq_some {css : Text} {rule : Rule}
    (outer : rule ∈ Event.outerRules 0 [] (Reading.ofText css false).events) {name body : Text} :
    entryOf rule = some (name, body) ↔
      rule.selectors.getLast? = some (classSelector name) ∧
        Text.trim (rule.declared.flatMap Event.written) = body := by
  obtain ⟨last, inside, found⟩ := Event.mem_outerRules outer
  simp [entryOf, found, ← Reading.className?_eq_some inside]

theorem isSome_get?_iff {css : Text} {index : ApplyIndex}
    (made : index.entries =
      ((Event.outerRules 0 [] (Reading.ofText css false).events).filterMap entryOf).reverse)
    (name : Text) :
    (index.get? name).isSome ↔
      ∃ rule ∈ Event.outerRules 0 [] (Reading.ofText css false).events,
        rule.selectors.getLast? = some (classSelector name) := by
  rw [get?, List.lookup_isSome_iff]
  constructor
  · rintro ⟨⟨key, body⟩, inside, same⟩
    obtain rfl : name = key := eq_of_beq same
    rw [made, List.mem_reverse, List.mem_filterMap] at inside
    obtain ⟨rule, outer, entry⟩ := inside
    exact ⟨rule, outer, ((entryOf_eq_some outer).mp entry).1⟩
  · intro ⟨rule, outer, last⟩
    refine ⟨(name, Text.trim (rule.declared.flatMap Event.written)), ?_, beq_self_eq_true name⟩
    rw [made, List.mem_reverse, List.mem_filterMap]
    exact ⟨rule, outer, (entryOf_eq_some outer).mpr ⟨last, rfl⟩⟩

theorem sole_of_last {rule : Rule} {name : Text}
    (single : 1 < rule.selectors.length →
      ∀ name, rule.selectors.getLast? ≠ some (classSelector name)) :
    rule.selectors.getLast? = some (classSelector name) ↔
      rule.selectors = [classSelector name] := by
  constructor
  · intro last
    obtain ⟨front, list⟩ := List.getLast?_eq_some_iff.mp last
    cases front with
    | nil => exact list
    | cons first front => exact absurd last (single (by simp [list]) name)
  · intro sole
    rw [sole]
    rfl

/-- Every ruleset outside at-rule blocks whose selector list ends with a class by itself makes an
entry for that class. So where no list of several selectors ends so, there is an entry for exactly
the classes that such a ruleset has as its only selector, and nothing else in the index. -/
theorem ofStyles_indexes_classes {css : Text} (source : String)
    (parses : (Reading.ofText css false).error = none) :
    ∃ index, ofStyles source css = .ok index ∧
      let rules := Event.outerRules 0 [] (Reading.ofText css false).events
      (∀ name, (index.get? name).isSome ↔
        ∃ rule ∈ rules, rule.selectors.getLast? = some (classSelector name)) ∧
      ((∀ rule ∈ rules, 1 < rule.selectors.length →
          ∀ name, rule.selectors.getLast? ≠ some (classSelector name)) →
        index.entries = ((rules.filter (·.selectors.length = 1)).filterMap entryOf).reverse ∧
          ∀ name, (index.get? name).isSome ↔
            ∃ rule ∈ rules, rule.selectors = [classSelector name]) := by
  obtain ⟨blocks, word, closed⟩ := Reading.nested css false
  obtain rfl := closed parses
  obtain ⟨index, indexed, made⟩ := ofEvents_entries word
  refine ⟨index, by simp [ofStyles, indexed, parses], isSome_get?_iff made, fun single => ⟨?_, ?_⟩⟩
  · rw [made, List.filterMap_filter]
    congr 1
    refine List.filterMap_congr fun rule outer => ?_
    cases entry : entryOf rule with
    | none => simp
    | some entry' =>
        have last := ((entryOf_eq_some outer).mp entry).1
        simp [(sole_of_last (single rule outer)).mp last]
  · intro name
    rw [isSome_get?_iff made]
    refine exists_congr fun rule => and_congr_right fun outer => ?_
    exact sole_of_last (single rule outer)

/-- Of a class by itself, a list that ends with more than a class and a class in an at-rule block,
the first makes an entry. -/
theorem ofStyles_indexes_sole_class :
    let css : Text := ".a\x7bb:c\x7di,.d j\x7bf:g\x7d@media k\x7b.h\x7bl:m\x7d\x7d".toList
    (Reading.ofText css false).error = none ∧
      ∃ index, ofStyles "" css = .ok index ∧ ∀ name, (index.get? name).isSome ↔ name = ['a'] := by
  intro css
  have parses : (Reading.ofText css false).error = none := by decide +kernel
  obtain ⟨index, indexed, _, sole⟩ := ofStyles_indexes_classes "" parses
  have rules : Event.outerRules 0 [] (Reading.ofText css false).events =
      [⟨[classSelector ['a']], [.declaration ['b'] [⟨.ident, ['c']⟩]]⟩,
        ⟨[[⟨.ident, ['i']⟩], classSelector ['d'] ++ [⟨.whitespace, [' ']⟩, ⟨.ident, ['j']⟩]],
          [.declaration ['f'] [⟨.ident, ['g']⟩]]⟩] := by decide +kernel
  rw [rules] at sole
  refine ⟨parses, index, indexed, fun name => ?_⟩
  rw [(sole (by simp [classSelector])).2]
  simp [classSelector, eq_comm]

/-- A list of two selectors makes an entry for the second, which no ruleset has by itself. -/
theorem ofStyles_indexes_last_selector :
    let css : Text := ".a,.b\x7bc:d\x7d".toList
    (Reading.ofText css false).error = none ∧
      (ofStyles "" css).toOption.bind (·.get? ['b']) = some "c:d;".toList ∧
      ¬ ∃ rule ∈ Event.outerRules 0 [] (Reading.ofText css false).events,
        rule.selectors = [classSelector ['b']] := by
  decide +kernel

end ApplyIndex

end UtilityCss
