import UtilityCss.Proofs.Convert.Safety
import UtilityCss.Proofs.Purge.Pruning

/-!
Purging is the same as walking pruned utilities without a checker. Inside a purged ruleset a walk
only counts blocks, so it goes on where the ruleset ends as if it had not been there; anywhere else
the checker makes no difference.
-/
namespace UtilityCss.Convert
open UtilityCss.Parser

theorem purges_some (purge : String → Bool) (selector : List Token) :
    purges (some purge) selector = (Event.beginRuleset selector).isPurged purge := by
  simp only [purges, Event.isPurged]
  cases PurgeKey.ofSelector? selector <;> rfl

theorem blocksAfter_purged {purge : String → Bool} {grouped : Bool} {e : Event}
    {blocks : List Block} (purged : (!grouped && e.isPurged purge) = true) :
    e.blocksAfter blocks = .ruleset :: blocks := by
  cases e with
  | beginRuleset _ => rfl
  | _ => simp [Event.isPurged] at purged

/-- What counts of a walk once its source is at an end. -/
def leaves (state : Place × Progress) : Nat × Progress :=
  (state.1.depth, state.2)

theorem bind_finish_eq {source : String} {error : Option SyntaxError}
    {x y : Except Halt (Place × Progress)} (h : leaves <$> x = leaves <$> y) :
    (x >>= finish source error) = (y >>= finish source error) := by
  cases x with
  | error halt => cases y <;> cases h; rfl
  | ok state =>
      cases y with
      | error halt => cases h
      | ok other =>
          have same : leaves state = leaves other := Except.ok.inj h
          obtain ⟨depth, progress⟩ := Prod.mk.inj same
          show finish source error state = finish source error other
          simp only [finish, depth, progress]

section Walk
variable {settings : Settings} {source : String} {checker : Option (String → Bool)}
  {expand : List Token → Progress → Except Halt Progress}

theorem foldlM_purged (events : List Event) (opened depth : Nat) (grouped : Bool) (p : Progress) :
    leaves <$> events.foldlM (walkEvent settings source checker expand)
        (⟨depth, opened + 1, grouped⟩, p) =
      leaves <$> (Event.afterBlock opened events).foldlM
        (walkEvent settings source checker expand) (⟨depth, 0, grouped⟩, p) := by
  induction events generalizing opened with
  | nil => rfl
  | cons e rest ih =>
      have counted : walkEvent settings source checker expand (⟨depth, opened + 1, grouped⟩, p) e =
          .ok (purgedEvent ⟨depth, opened + 1, grouped⟩ e, p) := by
        simp [walkEvent]
      rw [List.foldlM_cons, counted]
      cases e with
      | beginAtRule _ _ | beginRuleset _ => exact ih (opened + 1)
      | endAtRule | endRuleset =>
          cases opened with
          | zero => rfl
          | succ opened => exact ih opened
      | atRule _ _ | selectorGroup _ | declaration _ _ | customProperty _ _ | marker _
      | comment _ => exact ih opened

/-- Only the begin of a ruleset without a group in front asks the checker. -/
theorem event_congr {checker' : Option (String → Bool)} {place : Place} {e : Event}
    (h : ∀ selector, e = .beginRuleset selector → place.afterGroup = false →
      purges checker selector = purges checker' selector) (p : Progress) :
    event settings source checker expand place p e =
      event settings source checker' expand place p e := by
  cases e with
  | beginRuleset selector =>
      cases grouped : place.afterGroup with
      | false => simp only [event, h selector rfl grouped]
      | true => simp [event, grouped]
  | _ => rfl

theorem place_of_write {place place' : Place} {x : Except Halt Progress} {p' : Progress}
    (h : (do return (place, ← x) : Except Halt (Place × Progress)) = .ok (place', p')) :
    place = place' := by
  cases x with
  | error halt => cases h
  | ok p => exact congrArg Prod.fst (Except.ok.inj h)

/-- Without a checker the place only remembers its depth and whether a group came last. -/
theorem event_unchecked_place {place place' : Place} {e : Event} {p p' : Progress}
    (h : event settings source none expand place p e = .ok (place', p')) :
    place'.purged = place.purged ∧
      place'.afterGroup = (e.isGroup || place.afterGroup && !Event.startsSelector [e]) := by
  cases e with
  | atRule name values =>
      simp only [event] at h
      split at h
      · cases place_of_write h
        simp [Event.isGroup, Event.startsSelector]
      · split at h <;> cases place_of_write h <;> simp [Event.isGroup, Event.startsSelector]
  | endAtRule =>
      simp only [event] at h
      split at h
      · cases h
      · cases place_of_write h
        simp [Event.isGroup, Event.startsSelector]
  | beginRuleset selector =>
      simp only [event, purges, Bool.and_false] at h
      cases place_of_write h
      simp [Event.isGroup, Event.startsSelector]
  | beginAtRule _ _ | selectorGroup _ | endRuleset | declaration _ _ | customProperty _ _
  | marker _ | comment _ =>
      cases place_of_write h
      simp [Event.isGroup, Event.startsSelector]

/-- A group can only come last directly, as the event after it goes on with its selector list. -/
theorem afterGroup_direct {grouped : Bool} {e : Event} {rest : List Event}
    (h : grouped = true → Event.startsSelector (e :: rest) = true) :
    (e.isGroup || grouped && !Event.startsSelector [e]) = e.isGroup := by
  cases grouped with
  | false => simp
  | true =>
      have starts : Event.startsSelector [e] = Event.startsSelector (e :: rest) := by
        cases e <;> rfl
      simp [starts, h rfl]

theorem walkEvent_kept {purge : String → Bool} {depth : Nat} {grouped : Bool} {e : Event}
    (kept : (!grouped && e.isPurged purge) = false) (p : Progress) :
    walkEvent settings source (some purge) expand (⟨depth, 0, grouped⟩, p) e =
      event settings source none expand ⟨depth, 0, grouped⟩ p e := by
  refine event_congr (fun selector he hg => ?_) p
  subst he
  cases hg
  rw [purges_some]
  exact kept

theorem walkEvent_purged {purge : String → Bool} {depth : Nat} {grouped : Bool} {e : Event}
    (purged : (!grouped && e.isPurged purge) = true) (p : Progress) :
    walkEvent settings source (some purge) expand (⟨depth, 0, grouped⟩, p) e =
      .ok (⟨depth, 1, false⟩, p) := by
  cases e with
  | beginRuleset selector =>
      simp only [walkEvent, event, purges_some, purged, Nat.lt_irrefl, if_true, if_false]
      rfl
  | _ => simp [Event.isPurged] at purged

theorem foldlM_prune {inline : Bool} {purge : String → Bool} {blocks after : List Block}
    {grouped : Bool} {events : List Event} (word : Nested inline blocks events after)
    (group : grouped = true → Event.startsSelector events = true) (depth : Nat) (p : Progress) :
    leaves <$> events.foldlM (walkEvent settings source (some purge) expand)
        (⟨depth, 0, grouped⟩, p) =
      leaves <$> (Event.prune purge grouped events).foldlM
        (walkEvent settings source none expand) (⟨depth, 0, grouped⟩, p) := by
  induction grouped, events using Event.prune.induct purge generalizing blocks after depth p with
  | case1 => rw [Event.prune]; rfl
  | case2 grouped e rest purged ih =>
      obtain ⟨_, _, word⟩ := nested_cons_iff.mp word
      -- The walk only counts up to the end of the ruleset, where the pruned word goes on.
      rw [blocksAfter_purged purged] at word
      obtain ⟨after, word⟩ := Nested.afterBlock [] word
      have whole : grouped = false := by simpa using (Bool.and_eq_true_iff.mp purged).1
      rw [Event.prune, if_pos purged, List.foldlM_cons, walkEvent_purged purged]
      show leaves <$> rest.foldlM _ (⟨depth, 0 + 1, false⟩, p) = _
      rw [foldlM_purged, whole]
      exact ih word (by simp) depth p
  | case3 grouped e rest kept ih =>
      obtain ⟨_, groups, word⟩ := nested_cons_iff.mp word
      rw [Event.prune, if_neg kept, List.foldlM_cons, List.foldlM_cons,
        walkEvent_kept (by simpa using kept)]
      show leaves <$> (event settings source none expand ⟨depth, 0, grouped⟩ p e >>= _) =
        leaves <$> (event settings source none expand ⟨depth, 0, grouped⟩ p e >>= _)
      cases walked : event settings source none expand ⟨depth, 0, grouped⟩ p e with
      | error halt => rfl
      | ok state =>
          -- `prune` looks at the event just before, the walk at its flag: here they agree.
          obtain ⟨⟨depth', purged', grouped'⟩, p'⟩ := state
          obtain ⟨rfl, hgrouped⟩ := event_unchecked_place walked
          have direct : grouped' = e.isGroup := hgrouped.trans (afterGroup_direct group)
          rw [direct]
          exact ih word groups depth' p'

end Walk

theorem walkReading_pruned {settings : Settings} {source : String}
    {expand : List Token → Progress → Except Halt Progress} {reading : Reading}
    (h : Nests reading) (checker : Option (String → Bool)) (p : Progress) :
    walkReading settings source checker expand reading p =
      walkReading settings source none expand (reading.pruned checker) p := by
  cases checker with
  | none => rfl
  | some purge =>
      obtain ⟨inline, blocks, word, _⟩ := h
      exact bind_finish_eq (foldlM_prune word (by simp) 0 p)

/-- The utilities less the rulesets that a checker gives up, and the other sections whole. -/
def prunedUtilities (purge : String → Bool) : SectionReader :=
  fun part css => (wholeSection part css).pruned (if part = .utilities then some purge else none)

theorem walk_pruned (dist : Distribution) (purge : String → Bool) (budget : Nat) (source : String)
    (checker : Option (String → Bool)) {reading : Reading} (h : Nests reading) (p : Progress) :
    walk ⟨dist, some purge⟩ wholeSection budget source checker reading p =
      walk ⟨dist, none⟩ (prunedUtilities purge) budget source none (reading.pruned checker) p := by
  induction budget generalizing source checker reading p with
  | zero => rfl
  | succ budget ih =>
      have sections : (fun (part : Section) (css : Text) =>
            walk ⟨dist, some purge⟩ wholeSection budget part.sourceName
              (sectionChecker ⟨dist, some purge⟩ part) (wholeSection part css)) =
          fun part css =>
            walk ⟨dist, none⟩ (prunedUtilities purge) budget part.sourceName
              (sectionChecker ⟨dist, none⟩ part) (prunedUtilities purge part css) := by
        funext part css p
        have unchecked : sectionChecker ⟨dist, none⟩ part = none := ite_self none
        rw [unchecked]
        exact ih part.sourceName _ (nests_ofText css false) p
      simp only [walk, sections]
      exact walkReading_pruned h checker p

/-- A run with a checker ends as the run without one in which every walk of the utilities goes along
the pruned word of the section. -/
theorem run_checker_eq_run_pruned (dist : Distribution) (purge : String → Bool) (budget : Nat)
    (inputs : List Input) (room : Option Room) :
    runWith ⟨dist, some purge⟩ wholeSection budget inputs room =
      runWith ⟨dist, none⟩ (prunedUtilities purge) budget inputs room := by
  have step : walkInput ⟨dist, some purge⟩ wholeSection budget =
      walkInput ⟨dist, none⟩ (prunedUtilities purge) budget := by
    funext p input
    simp only [walkInput]
    split
    · rfl
    next css _ => exact walk_pruned dist purge budget _ none (nests_ofText css input.inline) p
  rw [runWith, runWith, step]

/-- Of two utilities the first is given up, with the block in it; in a source of its own it
stays. -/
example :
    let styles : Text := ".a\x7b@media x\x7b.b\x7bc:d\x7d\x7de:f\x7d.g\x7bh:i\x7d".toList
    let settings : Settings := ⟨.inMemory (fun _ => some styles) none, some (· == "a")⟩
    let inputs : List Input :=
      [⟨"in.css", .steady (.ofText "@tailwind utilities;.a\x7bj:k\x7d".toList), false⟩]
    (prunedUtilities (· == "a") .utilities styles).events =
        [.beginRuleset [⟨.delim, ['.']⟩, ⟨.ident, ['g']⟩], .declaration ['h'] [⟨.ident, ['i']⟩],
          .endRuleset] ∧
      (runWith settings wholeSection walkBudget inputs none).toOption.map Output.text =
        some ".g\x7bh:i;\x7d.a\x7bj:k;\x7d".toList := by
  decide +kernel

end UtilityCss.Convert
