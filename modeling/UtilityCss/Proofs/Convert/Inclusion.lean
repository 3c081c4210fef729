import Mathlib.Data.List.Perm.Subperm
import Mathlib.Logic.Relation
import UtilityCss.Proofs.Convert.Budget
import UtilityCss.Proofs.Convert.Filtering
import UtilityCss.Proofs.Convert.Outcome

/-!
Sections within sections. A walk goes deeper only where a directive asks for a section, so the
sections that are open at any time form a path in the graph of which section asks for which. Where
that graph has no cycle no section is on a path twice, and the three there are bound the depth.
-/
namespace UtilityCss
open UtilityCss.Convert

/-- The section that an event asks for, if it is a directive. -/
def Event.section? : Event → Option Section
  | .atRule name values =>
    if isDirective "@tailwind" name then (sectionOf "" values).toOption else none
  | _ => none

theorem Event.section?_atRule {source : String} {name : Text} {values : List Token} {part : Section}
    (directive : isDirective "@tailwind" name = true) (named : sectionOf source values = .ok part) :
    (Event.atRule name values).section? = some part := by
  rw [section?, if_pos directive, sectionOf_outcome "" source, named]
  rfl

theorem Section.mem_all (part : Section) : part ∈ all := by
  cases part <;> decide

namespace Distribution
variable {dist : Distribution}

/-- The sections that a section asks for, as it reads after some output. -/
def asked (dist : Distribution) (sent : List Text) (part : Section) : List Section :=
  match dist.read part sent with
  | .ok css => (wholeSection part css).events.filterMap Event.section?
  | .error _ => []

def Includes (dist : Distribution) (part other : Section) : Prop :=
  ∃ sent, other ∈ dist.asked sent part

/-- No section reaches itself. -/
def Acyclic (dist : Distribution) : Prop :=
  ∀ part, ¬ Relation.TransGen dist.Includes part part

/-- Of sections that read the same each time one reading tells what they ask for. -/
theorem Steady.includes_iff (steady : dist.Steady) {part other : Section} :
    dist.Includes part other ↔ other ∈ dist.asked [] part := by
  have same (sent : List Text) : dist.asked sent part = dist.asked [] part := by
    rw [asked, steady part sent [], ← asked]
  constructor
  · intro includes
    obtain ⟨sent, asks⟩ := includes
    rwa [same] at asks
  · intro asks
    exact ⟨[], asks⟩

/-- In an order in which sections ask for later ones alone none reaches itself. -/
theorem acyclic_of_rank (rank : Section → Nat)
    (climbs : ∀ part other, dist.Includes part other → rank part < rank other) : dist.Acyclic := by
  suffices all : ∀ part other, Relation.TransGen dist.Includes part other →
      rank part < rank other from
    fun part cycle => Nat.lt_irrefl _ (all part part cycle)
  intro part other path
  induction path with
  | single includes => exact climbs _ _ includes
  | tail _ includes ih => exact ih.trans (climbs _ _ includes)

/-- Sections that are open one in the other, innermost first, and a reading that asks for nothing
but what the innermost one does. -/
structure Stacked (dist : Distribution) (opened : List Section) (reading : Reading) : Prop where
  chain : opened.IsChain fun inner outer => dist.Includes outer inner
  innermost : ∀ part ∈ opened.head?, ∀ e ∈ reading.events, ∀ other,
    e.section? = some other → dist.Includes part other

namespace Stacked
variable {opened : List Section} {reading : Reading}

theorem input (reading : Reading) : dist.Stacked [] reading :=
  ⟨.nil, by simp⟩

theorem deeper (h : dist.Stacked opened reading) {e : Event} (inside : e ∈ reading.events)
    {part : Section} (asks : e.section? = some part) {sent : List Text} {css : Text}
    (read : dist.read part sent = .ok css) :
    dist.Stacked (part :: opened) (wholeSection part css) := by
  constructor
  · cases opened with
    | nil => exact .singleton part
    | cons outer opened =>
        exact .cons_cons (h.innermost outer rfl e inside part asks) h.chain
  · intro part' here e' inside' other asks'
    cases here
    refine ⟨sent, ?_⟩
    rw [asked, read]
    exact List.mem_filterMap.mpr ⟨e', inside', asks'⟩

theorem nodup (acyclic : dist.Acyclic) (h : dist.Stacked opened reading) : opened.Nodup := by
  have paths : opened.IsChain fun inner outer => Relation.TransGen dist.Includes outer inner :=
    h.chain.imp fun _ _ edge => .single edge
  have trans : IsTrans Section fun inner outer => Relation.TransGen dist.Includes outer inner :=
    ⟨fun _ _ _ first second => second.trans first⟩
  -- A section that is open twice would reach itself by the sections between.
  refine paths.pairwise.imp fun path => ?_
  rintro rfl
  exact acyclic _ path

theorem length_lt (acyclic : dist.Acyclic) (h : dist.Stacked opened reading) :
    opened.length < walkBudget :=
  Nat.lt_succ_of_le ((h.nodup acyclic).subperm fun part _ => part.mem_all).length_le

end Stacked
end Distribution

namespace Convert

/-- A walk: the arguments it is begun with. -/
structure Begun where
  source : String
  checker : Option (String → Bool)
  reading : Reading
  progress : Progress

/-- What becomes of a directive within a walk, with the budget that is left for sections. -/
def expander (settings : Settings) (budget : Nat) (source : String) :
    List Token → Progress → Except Halt Progress :=
  expandSection settings source fun part css =>
    walk settings wholeSection budget part.sourceName (sectionChecker settings part)
      (wholeSection part css)

/-- A walk comes to a directive and begins the walk of a section. -/
inductive Begins (settings : Settings) (outer : Begun) (part : Section) : Begun → Prop
  | intro {before after : List Event} {name : Text} {values : List Token} {budget : Nat}
      {place : Place} {p : Progress} {css : Text} :
      outer.reading.events = before ++ .atRule name values :: after →
      before.foldlM (walkEvent settings outer.source outer.checker
        (expander settings budget outer.source)) (.start, outer.progress) = .ok (place, p) →
      place.purged = 0 → isDirective "@tailwind" name = true →
      sectionOf outer.source values = .ok part → settings.dist.read part p.output.sent = .ok css →
      Begins settings outer part
        ⟨part.sourceName, sectionChecker settings part, wholeSection part css, p⟩

/-- A walk that a run has under way at some time, with the sections that are open then, innermost
first. The input is open beside them. -/
inductive UnderWay (settings : Settings) (inputs : List Input) (room : Option Room) :
    List Section → Begun → Prop
  | input {before after : List Input} {input : Input} {budget : Nat} {p : Progress} {css : Text} :
      inputs = before ++ input :: after →
      before.foldlM (walkInput settings wholeSection budget) ⟨.start room, none⟩ = .ok p →
      input.source.text p.output.sent = .ok css →
      UnderWay settings inputs room [] ⟨input.name, none, Reading.ofText css input.inline, p⟩
  | deeper {opened : List Section} {outer inner : Begun} {part : Section} :
      UnderWay settings inputs room opened outer → Begins settings outer part inner →
      UnderWay settings inputs room (part :: opened) inner

section Run
variable {settings : Settings} {inputs : List Input} {room : Option Room} {budget : Nat}

theorem UnderWay.stacked {opened : List Section} {walk : Begun}
    (h : UnderWay settings inputs room opened walk) :
    settings.dist.Stacked opened walk.reading := by
  induction h with
  | input _ _ _ => exact .input _
  | deeper _ begins ih =>
      obtain ⟨events, _, _, directive, named, read⟩ := begins
      exact ih.deeper (by simp [events]) (Event.section?_atRule directive named) read

/-- A walk that lacks budget has sections open, one in the other, that have used it up. -/
theorem UnderWay.exhausted {opened : List Section} {begun : Begun}
    (h : UnderWay settings inputs room opened begun)
    (endless : walk settings wholeSection budget begun.source begun.checker begun.reading
      begun.progress = .error .endless) :
    ∃ opened' begun', UnderWay settings inputs room opened' begun' ∧
      opened'.length = opened.length + budget := by
  induction budget generalizing opened begun with
  | zero => exact ⟨opened, begun, h, rfl⟩
  | succ budget ih =>
      have events : begun.reading.events.foldlM (walkEvent settings begun.source begun.checker
          (expander settings budget begun.source)) (.start, begun.progress) = .error .endless :=
        endless_of_bind (finish_ends begun.source begun.reading.error) endless
      obtain ⟨before, e, after, state, split, walked, stops⟩ := exists_of_foldlM events
      obtain ⟨kept, name, values, rfl, directive, expands⟩ := exists_of_walkEvent stops
      obtain ⟨part, css, named, read, endless⟩ := exists_of_expandSection expands
      -- The section that the walk stops in is one more that is open, with the budget less one.
      have deeper := h.deeper (.intro split walked kept directive named read)
      obtain ⟨opened', begun', underWay, length⟩ := ih deeper endless
      exact ⟨opened', begun', underWay, by rw [length, List.length_cons]; omega⟩

theorem exists_underWay
    (endless : runWith settings wholeSection budget inputs room = .error .endless) :
    ∃ opened begun, UnderWay settings inputs room opened begun ∧ opened.length = budget := by
  have walks : inputs.foldlM (walkInput settings wholeSection budget) ⟨.start room, none⟩ =
      .error .endless := by
    refine endless_of_bind (fun p => ?_) endless
    split
    · exact ends_fail _
    · exact ends_ok _
  obtain ⟨before, input, after, p, split, walked, stops⟩ := exists_of_foldlM walks
  rw [walkInput] at stops
  split at stops
  · cases stops
  next css read =>
    obtain ⟨opened, begun, underWay, length⟩ := (UnderWay.input split walked read).exhausted stops
    exact ⟨opened, begun, underWay, by rw [length, List.length_nil, Nat.zero_add]⟩

end Run

/-- Where no section reaches itself every run comes to an end, which more budget does not change,
and the walks under way at any time are that of an input and of different sections. -/
theorem run_terminates {settings : Settings} (acyclic : settings.dist.Acyclic) (inputs : List Input)
    (room : Option Room) :
    run settings inputs room ≠ .error .endless ∧
      (∀ transform, runThrough transform settings inputs ≠ .error .endless) ∧
      (∀ budget, walkBudget ≤ budget →
        runWith settings wholeSection budget inputs room = run settings inputs room) ∧
      ∀ opened begun, UnderWay settings inputs room opened begun →
        opened.Nodup ∧ opened.length + 1 ≤ 4 := by
  have bounded {room : Option Room} {opened : List Section} {begun : Begun}
      (h : UnderWay settings inputs room opened begun) : opened.length < walkBudget :=
    h.stacked.length_lt acyclic
  have ends (room : Option Room) : Ends (run settings inputs room) := by
    intro endless
    obtain ⟨opened, begun, underWay, length⟩ := exists_underWay endless
    exact absurd length (bounded underWay).ne
  refine ⟨ends room, fun transform => ?_, fun budget enough => ?_, fun opened begun underWay => ?_⟩
  · refine (ends none).bind fun output => ?_
    split
    · exact ends_ok _
    · exact ends_fail _
    · exact ends_fail _
  · obtain ⟨more, rfl⟩ := Nat.exists_eq_add_of_le enough
    exact (runWith_more wholeSection walkBudget more inputs room).eq_of_ends (ends room)
  · exact ⟨underWay.stacked.nodup acyclic, bounded underWay⟩

/-- Sections that ask for each other in a row take all of the budget. -/
theorem run_terminates_chained :
    let dist : Distribution := .inMemory (fun part => some (if part = .base then
      "@tailwind components;" else if part = .components then "@tailwind utilities;" else
      ".a\x7bb:c\x7d").toList) none
    let inputs : List Input := [⟨"in", .steady (.ofText "@tailwind base;".toList), false⟩]
    dist.Acyclic ∧
      (runWith ⟨dist, none⟩ wholeSection 9 inputs none).map Output.text =
        .ok ".a\x7bb:c;\x7d".toList ∧
      ∃ opened begun, UnderWay ⟨dist, none⟩ inputs none opened begun ∧ opened.Nodup ∧
        opened.length = 3 := by
  intro dist inputs
  have steady : dist.Steady := by
    intro part
    cases part <;> exact fun _ _ => rfl
  have later : ∀ part, ∀ other ∈ dist.asked [] part,
      Section.all.idxOf part < Section.all.idxOf other := by
    intro part
    cases part <;> decide +kernel
  have acyclic : dist.Acyclic :=
    Distribution.acyclic_of_rank (Section.all.idxOf ·) fun part other includes =>
      later part other (steady.includes_iff.mp includes)
  obtain ⟨_, _, same, nested⟩ := @run_terminates ⟨dist, none⟩ acyclic inputs none
  refine ⟨acyclic, ?_, ?_⟩
  · rw [same 9 (by decide)]
    decide +kernel
  · have endless : (runWith ⟨dist, none⟩ wholeSection 3 inputs none).map Output.text =
        .error .endless := by decide +kernel
    obtain ⟨opened, begun, underWay, length⟩ :=
      exists_underWay (endless_of_bind (fun o => ends_ok o.text) endless)
    exact ⟨opened, begun, underWay, (nested opened begun underWay).1, length⟩

end Convert
end UtilityCss
