import UtilityCss.Proofs.Event.Nesting
import UtilityCss.Purge.Key

/-!
Event words without the rulesets that are given up. A ruleset goes as a whole, from its begin to the
end that matches it, unless a selector group stands directly in front. Where no end matches, since
the source breaks off inside the ruleset, everything after its begin goes.
-/
namespace UtilityCss
open UtilityCss.Parser
namespace Event

/-- What stands after the end of the innermost open block, with further blocks opened in it. -/
def afterBlock : Nat → List Event → List Event
  | _, [] => []
  | opened, beginAtRule _ _ :: rest | opened, beginRuleset _ :: rest => afterBlock (opened + 1) rest
  | 0, endAtRule :: rest | 0, endRuleset :: rest => rest
  | opened + 1, endAtRule :: rest | opened + 1, endRuleset :: rest => afterBlock opened rest
  | opened, _ :: rest => afterBlock opened rest

theorem length_afterBlock (opened : Nat) (events : List Event) :
    (afterBlock opened events).length ≤ events.length := by
  fun_induction afterBlock opened events with
  | case1 => exact Nat.le_refl _
  | case4 | case5 => exact Nat.le_succ _
  | case2 | case3 | case6 | case7 | case8 => exact Nat.le_succ_of_le ‹_›

theorem afterBlock_subset (opened : Nat) (events : List Event) :
    afterBlock opened events ⊆ events := by
  fun_induction afterBlock opened events with
  | case1 => exact List.Subset.refl _
  | case4 | case5 => exact List.subset_cons_self _ _
  | case2 | case3 | case6 | case7 | case8 => exact List.subset_cons_of_subset _ ‹_›

def isPurged (purge : String → Bool) : Event → Bool
  | beginRuleset selector => (PurgeKey.ofSelector? selector).any purge
  | _ => false

/-- The word less its purged rulesets, given whether a selector group stands in front of it. -/
def prune (purge : String → Bool) : Bool → List Event → List Event
  | _, [] => []
  | grouped, e :: rest =>
    if !grouped && e.isPurged purge then prune purge false (afterBlock 0 rest)
    else e :: prune purge e.isGroup rest
termination_by _ events => events.length
decreasing_by
  · have := length_afterBlock 0 rest
    simp only [List.length_cons]
    omega
  · simp

/-- Nothing is left that was not there. -/
theorem prune_subset (purge : String → Bool) (grouped : Bool) (events : List Event) :
    prune purge grouped events ⊆ events := by
  induction grouped, events using prune.induct purge with
  | case1 grouped =>
      rw [prune]
      exact List.Subset.refl _
  | case2 grouped e rest purged ih =>
      rw [prune, if_pos purged]
      exact List.subset_cons_of_subset _ (List.Subset.trans ih (afterBlock_subset 0 rest))
  | case3 grouped e rest kept ih =>
      rw [prune, if_neg kept]
      exact List.cons_subset_cons e ih

theorem afterBlock_content {inline : Bool} {place : Option Block} {inner : List Event}
    (h : Content inline place inner) (opened : Nat) (more : List Event) :
    afterBlock opened (inner ++ more) = afterBlock opened more := by
  induction h generalizing opened more with
  | nil => rfl
  | atRule _ ih | marker _ ih | comment _ ih | declaration _ _ ih | customProperty _ _ ih =>
      exact ih opened more
  | atBlock _ _ ihInner ihRest =>
      simp only [List.cons_append, List.append_assoc, afterBlock]
      rw [ihInner, afterBlock, ihRest]
  | ruleset groups _ _ _ _ ihInner ihRest =>
      induction groups with
      | nil =>
          simp only [List.map_nil, List.nil_append, List.cons_append, List.append_assoc, afterBlock]
          rw [ihInner, afterBlock, ihRest]
      | cons group groups ih => exact ih

/-- A purged ruleset goes with all it holds. -/
theorem prune_ruleset {inline : Bool} {purge : String → Bool} {selector : List Token}
    {inner : List Event} (purged : (beginRuleset selector).isPurged purge = true)
    (h : Content inline (some .ruleset) inner) (rest : List Event) :
    prune purge false (beginRuleset selector :: inner ++ endRuleset :: rest) =
      prune purge false rest := by
  rw [List.cons_append, prune, purged]
  simp only [Bool.not_false, Bool.and_self, if_true]
  rw [afterBlock_content h, afterBlock]

end Event

theorem Nested.afterBlock {inline : Bool} {block : Block} {blocks after : List Block}
    {events : List Event} (opened : List Block)
    (h : Nested inline (opened ++ block :: blocks) events after) :
    ∃ after, Nested inline blocks (Event.afterBlock opened.length events) after := by
  induction events generalizing opened with
  | nil => exact ⟨blocks, .nil⟩
  | cons e rest ih =>
      obtain ⟨_, _, h⟩ := nested_cons_iff.mp h
      cases e with
      | beginAtRule _ _ => exact ih (.atRule :: opened) h
      | beginRuleset _ => exact ih (.ruleset :: opened) h
      | endAtRule | endRuleset =>
          cases opened with
          | nil => exact ⟨after, h⟩
          | cons _ opened => exact ih opened h
      | atRule _ _ | selectorGroup _ | declaration _ _ | customProperty _ _ | marker _
      | comment _ => exact ih opened h

namespace Reading

/-- A reading of which a checker, where there is one, has taken the rulesets it gives up. -/
def pruned (reading : Reading) : Option (String → Bool) → Reading
  | some purge => { reading with events := Event.prune purge false reading.events }
  | none => reading

end Reading

end UtilityCss
