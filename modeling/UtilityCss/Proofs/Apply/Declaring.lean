import UtilityCss.Proofs.Apply.Entries
import UtilityCss.Proofs.Basic

/-!
The index of utilities as the blocks of a stylesheet have it. Blocks are passed over whole, so what
counts of a stylesheet are the rulesets that it holds itself, and what counts of a ruleset are the
declarations that it holds itself. Of the rulesets with the same class the last one is the entry.
-/
namespace UtilityCss
open UtilityCss.Parser

namespace Event

/-- At-rules without a block, markup escapes and comments. -/
def isAside : Event → Bool
  | atRule _ _ | marker _ | comment _ => true
  | _ => false

end Event

/-- The declarations that a ruleset with the given content holds itself. -/
inductive Declares : List Event → List Event → Prop
  | nil : Declares [] []
  | declared {e rest found} : e.isDeclared = true → Declares rest found →
      Declares (e :: rest) (e :: found)
  | aside {e rest found} : e.isAside = true → Declares rest found → Declares (e :: rest) found
  | block {name values inner rest found} : Content false (some .atRule) inner →
      Declares rest found → Declares (.beginAtRule name values :: inner ++ .endAtRule :: rest) found

/-- The rulesets that a stylesheet holds itself, in order. -/
inductive Holds : List Event → List Rule → Prop
  | nil : Holds [] []
  | aside {e rest rules} : e.isAside = true → Holds rest rules → Holds (e :: rest) rules
  | block {name values inner rest rules} : Content false (some .atRule) inner → Holds rest rules →
      Holds (.beginAtRule name values :: inner ++ .endAtRule :: rest) rules
  | ruleset {last inner declared rest rules} (groups : List (List Token)) :
      Declares inner declared → Holds rest rules →
      Holds (groups.map .selectorGroup ++ .beginRuleset last :: inner ++ .endRuleset :: rest)
        (⟨groups ++ [last], declared⟩ :: rules)

theorem Declares.isDeclared {inner found : List Event} (h : Declares inner found) :
    ∀ e ∈ found, e.isDeclared = true := by
  induction h with
  | nil => exact nofun
  | declared kept _ ih => exact List.forall_mem_cons.mpr ⟨kept, ih⟩
  | aside _ _ ih | block _ _ ih => exact ih

theorem Holds.isDeclared {events : List Event} {rules : List Rule} (h : Holds events rules) :
    ∀ rule ∈ rules, ∀ e ∈ rule.declared, e.isDeclared = true := by
  induction h with
  | nil => exact nofun
  | aside _ _ ih | block _ _ ih => exact ih
  | ruleset _ body _ ih => exact List.forall_mem_cons.mpr ⟨body.isDeclared, ih⟩

theorem Content.declares {inner : List Event} (h : Content false (some .ruleset) inner) :
    ∃ found, Declares inner found := by
  generalize place : some Block.ruleset = p at h
  induction h with
  | nil => exact ⟨[], .nil⟩
  | atRule _ ih | marker _ ih | comment _ ih =>
      obtain ⟨found, rest⟩ := ih place
      exact ⟨found, .aside rfl rest⟩
  | declaration _ _ ih | customProperty _ _ ih =>
      obtain ⟨found, rest⟩ := ih place
      exact ⟨_, .declared rfl rest⟩
  | atBlock inside _ _ ih =>
      obtain ⟨found, rest⟩ := ih place
      exact ⟨found, .block inside rest⟩
  | ruleset _ other => exact absurd place.symm other

theorem WellNested.holds {events : List Event} (h : WellNested false events) :
    ∃ rules, Holds events rules := by
  rw [WellNested] at h
  generalize place : none = p at h
  induction h with
  | nil => exact ⟨[], .nil⟩
  | atRule _ ih | marker _ ih | comment _ ih =>
      obtain ⟨rules, rest⟩ := ih place
      exact ⟨rules, .aside rfl rest⟩
  | declaration inline | customProperty inline => cases inline place.symm
  | atBlock inside _ _ ih =>
      obtain ⟨rules, rest⟩ := ih place
      exact ⟨rules, .block inside rest⟩
  | ruleset groups _ _ inside _ _ ih =>
      obtain ⟨rules, rest⟩ := ih place
      obtain ⟨declared, body⟩ := inside.declares
      exact ⟨_, .ruleset groups body rest⟩

namespace Event

theorem declared_groups (depth : Nat) (groups : List (List Token)) (rest : List Event) :
    declared depth (groups.map .selectorGroup ++ rest) = declared depth rest := by
  induction groups with
  | nil => rfl
  | cons group groups ih => exact ih

theorem outerRules_groups (depth : Nat) (read groups : List (List Token)) (rest : List Event) :
    outerRules depth read (groups.map .selectorGroup ++ rest) =
      outerRules depth (read ++ groups) rest := by
  induction groups generalizing read with
  | nil => simp
  | cons group groups ih =>
      rw [List.map_cons, List.cons_append, outerRules, ih, List.append_assoc, List.singleton_append]

end Event

section Block
variable {inline : Bool} {place : Option Block} {inner : List Event}
  (h : Content inline place inner)
include h

/-- Nothing in an at-rule block is declared in the ruleset around it. -/
theorem Content.declared_append (depth : Nat) (rest : List Event) :
    Event.declared (depth + 1) (inner ++ rest) = Event.declared (depth + 1) rest := by
  induction h generalizing depth rest with
  | nil => rfl
  | atRule _ ih | marker _ ih | comment _ ih | declaration _ _ ih | customProperty _ _ ih =>
      exact ih depth rest
  | @atBlock _ name values body others _ _ bodyIh ih =>
      have inside := bodyIh (depth + 1) (.endAtRule :: (others ++ rest))
      rw [List.append_assoc, List.cons_append, Event.declared, List.cons_append, inside]
      exact ih depth rest
  | @ruleset _ last body others groups _ _ _ _ bodyIh ih =>
      have inside := bodyIh depth (.endRuleset :: (others ++ rest))
      rw [List.append_assoc, List.append_assoc, Event.declared_groups, List.cons_append,
        Event.declared, List.cons_append, inside]
      exact ih depth rest

theorem Content.declared_block (name : Text) (values : List Token) (rest : List Event) :
    Event.declared 0 (.beginAtRule name values :: inner ++ .endAtRule :: rest) =
      Event.declared 0 rest := by
  rw [List.cons_append, Event.declared, h.declared_append]
  rfl

/-- No ruleset in an at-rule block counts. What comes after it must not go on a selector list. -/
theorem Content.outerRules_append {depth : Nat} {rest : List Event}
    (apart : ∀ groups, Event.outerRules (depth + 1) groups rest =
      Event.outerRules (depth + 1) [] rest) (groups : List (List Token)) :
    Event.outerRules (depth + 1) groups (inner ++ rest) = Event.outerRules (depth + 1) [] rest := by
  induction h generalizing depth rest groups with
  | nil => exact apart groups
  | atRule _ ih | marker _ ih | comment _ ih | declaration _ _ ih | customProperty _ _ ih =>
      exact ih apart []
  | @atBlock _ name values body others _ _ bodyIh ih =>
      have inside : Event.outerRules (depth + 2) [] (body ++ .endAtRule :: (others ++ rest)) = _ :=
        bodyIh (fun _ => rfl) []
      rw [List.append_assoc, List.cons_append, Event.outerRules, List.cons_append, inside]
      exact ih apart []
  | @ruleset _ last body others groups _ _ _ _ bodyIh ih =>
      have inside : Event.outerRules (depth + 1) [] (body ++ .endRuleset :: (others ++ rest)) = _ :=
        bodyIh (fun _ => rfl) []
      rw [List.append_assoc, List.append_assoc, Event.outerRules_groups, List.cons_append,
        Event.outerRules, List.cons_append, inside]
      exact ih apart []

theorem Content.outerRules_block (name : Text) (values : List Token) (groups : List (List Token))
    (rest : List Event) :
    Event.outerRules 0 groups (.beginAtRule name values :: inner ++ .endAtRule :: rest) =
      Event.outerRules 0 [] rest := by
  have inside : Event.outerRules (0 + 1) [] (inner ++ .endAtRule :: rest) = _ :=
    h.outerRules_append (fun _ => rfl) []
  rw [List.cons_append, Event.outerRules, inside]
  rfl

end Block

theorem Declares.declared_eq {inner found : List Event} (h : Declares inner found)
    (rest : List Event) : Event.declared 0 (inner ++ .endRuleset :: rest) = found := by
  induction h with
  | nil => rfl
  | @declared e _ _ kept _ ih => cases e <;> cases kept <;> exact congrArg (_ :: ·) ih
  | @aside e _ _ skipped _ ih => cases e <;> cases skipped <;> exact ih
  | block inside _ ih =>
      rw [List.append_assoc]
      exact (inside.declared_block _ _ _).trans ih

theorem Declares.outerRules_append {inner found : List Event} (h : Declares inner found)
    (groups : List (List Token)) (rest : List Event) :
    Event.outerRules 0 groups (inner ++ .endRuleset :: rest) = Event.outerRules 0 [] rest := by
  induction h generalizing groups with
  | nil => rfl
  | @declared e _ _ kept _ ih => cases e <;> cases kept <;> exact ih []
  | @aside e _ _ skipped _ ih => cases e <;> cases skipped <;> exact ih []
  | block inside _ ih =>
      rw [List.append_assoc]
      exact (inside.outerRules_block _ _ _ _).trans (ih [])

/-- Counting open blocks finds what the blocks hold. -/
theorem Holds.outerRules_eq {events : List Event} {rules : List Rule} (h : Holds events rules) :
    Event.outerRules 0 [] events = rules := by
  induction h with
  | nil => rfl
  | @aside e _ _ skipped _ ih => cases e <;> cases skipped <;> exact ih
  | block inside _ ih =>
      rw [inside.outerRules_block]
      exact ih
  | ruleset groups inside _ ih =>
      rw [List.append_assoc, Event.outerRules_groups, List.nil_append, List.cons_append,
        Event.outerRules, if_pos rfl, inside.declared_eq, inside.outerRules_append, ih]

namespace ApplyIndex

theorem entryOf_ne {css : Text} {rule : Rule}
    (outer : rule ∈ Event.outerRules 0 [] (Reading.ofText css false).events) (name : Text) :
    (∀ entry, entryOf rule = some entry → entry.1 ≠ name) ↔
      rule.selectors.getLast? ≠ some (classSelector name) := by
  constructor
  · intro others last
    exact others (name, _) ((entryOf_eq_some outer).mpr ⟨last, rfl⟩) rfl
  · rintro other ⟨key, body⟩ made rfl
    exact other ((entryOf_eq_some outer).mp made).1

/-- What is found for a class is declared in the last of its rulesets. -/
theorem get?_eq_some_iff {css : Text} {index : ApplyIndex}
    (made : index.entries =
      ((Event.outerRules 0 [] (Reading.ofText css false).events).filterMap entryOf).reverse)
    (name body : Text) :
    index.get? name = some body ↔
      ∃ before rule after,
        Event.outerRules 0 [] (Reading.ofText css false).events = before ++ rule :: after ∧
        rule.selectors.getLast? = some (classSelector name) ∧
        (∀ later ∈ after, later.selectors.getLast? ≠ some (classSelector name)) ∧
        body = Text.trim (rule.declared.flatMap Event.written) := by
  rw [get?, made, lookup_reverse_filterMap]
  refine exists_congr fun before => exists_congr fun rule => exists_congr fun after => ?_
  refine and_congr_right fun split => ?_
  have outer (r : Rule) (inside : r ∈ rule :: after) :
      r ∈ Event.outerRules 0 [] (Reading.ofText css false).events :=
    split ▸ List.mem_append_right before inside
  rw [entryOf_eq_some (outer rule List.mem_cons_self), and_assoc, and_comm (a := _ = body),
    eq_comm (b := body)]
  refine and_congr_right fun _ => and_congr_left fun _ => forall₂_congr fun later inside => ?_
  exact entryOf_ne (outer later (List.mem_cons_of_mem _ inside)) name

theorem ofStyles_ok_iff (source : String) (css : Text) :
    (∃ index, ofStyles source css = .ok index) ↔ (Reading.ofText css false).error = none := by
  obtain ⟨index, result⟩ := ofStyles_eq source css
  rw [result]
  cases (Reading.ofText css false).error <;> simp

/-- What is found in the index of a stylesheet, by the blocks of it. -/
theorem get?_of_ofStyles {source : String} {css : Text} {index : ApplyIndex}
    (indexed : ofStyles source css = .ok index) :
    (∃ rules, Holds (Reading.ofText css false).events rules) ∧
      ∀ rules, Holds (Reading.ofText css false).events rules →
        ∀ name body, index.get? name = some body ↔
          ∃ before rule after, rules = before ++ rule :: after ∧
            rule.selectors.getLast? = some (classSelector name) ∧
            (∀ later ∈ after, later.selectors.getLast? ≠ some (classSelector name)) ∧
            body = Text.trim (rule.declared.flatMap Event.written) := by
  have parses := (ofStyles_ok_iff source css).mp ⟨index, indexed⟩
  obtain ⟨blocks, word, closed⟩ := Reading.nested css false
  obtain rfl := closed parses
  constructor
  · have whole := word.wellNested
    rw [List.map_nil, List.append_nil] at whole
    exact whole.holds
  · intro rules holds
    obtain rfl := holds.outerRules_eq
    obtain ⟨built, events, made⟩ := ofEvents_entries word
    have same : ofStyles source css = .ok built := by simp [ofStyles, events, parses]
    obtain rfl := Except.ok.inj (indexed.symm.trans same)
    exact get?_eq_some_iff made

/-- A stylesheet without errors has an index. The body of a class is what the last ruleset that the
stylesheet itself holds for it declares itself. -/
theorem ofStyles_holds (source : String) (css : Text) :
    ((∃ index, ofStyles source css = .ok index) ↔ (Reading.ofText css false).error = none) ∧
      ∀ index, ofStyles source css = .ok index →
        (∃ rules, Holds (Reading.ofText css false).events rules) ∧
        ∀ rules, Holds (Reading.ofText css false).events rules →
          ∀ name body, index.get? name = some body ↔
            ∃ before rule after, rules = before ++ rule :: after ∧
              rule.selectors.getLast? = some (classSelector name) ∧
              (∀ later ∈ after, later.selectors.getLast? ≠ some (classSelector name)) ∧
              body = Text.trim (rule.declared.flatMap Event.written) :=
  ⟨ofStyles_ok_iff source css, fun _ => get?_of_ofStyles⟩

/-- The end of the text closes what is open, and at-rule blocks do not count. -/
example :
    let css : Text :=
      ".a\x7bb:c\x7d@media k\x7b.a\x7bd:e\x7d\x7d.a\x7bf:g;@media h\x7bi:j\x7d--l:m ".toList
    (ofStyles "" css).toOption.bind (·.get? ['a']) = some "f:g;--l:m;".toList := by
  decide +kernel

end ApplyIndex

end UtilityCss
