import UtilityCss.Convert

/-!
Walks in lockstep. Two runs that read the same and write the same keep a relation between what they
have done so far, and end alike; one of them may be stopped early. What has to be known of the
relation is what becomes of it where a walk does more than go along its events: when it writes, gets
the index of utilities, and reads a section.
-/
namespace UtilityCss.Convert

/-- Results with the same early end or with related values, unless the second one is stopped. -/
inductive Alike {ε α : Type} (stopped : ε → Prop) (related : α → α → Prop) :
    Except ε α → Except ε α → Prop
  | halts (halt) : Alike stopped related (.error halt) (.error halt)
  | ends {a b} : related a b → Alike stopped related (.ok a) (.ok b)
  | stops {x halt} : stopped halt → Alike stopped related x (.error halt)

section Results
variable {ε α β : Type} {stopped : ε → Prop} {related : α → α → Prop} {related' : β → β → Prop}

theorem Alike.bind {x y : Except ε α} {f g : α → Except ε β} (h : Alike stopped related x y)
    (k : ∀ a b, related a b → Alike stopped related' (f a) (g b)) :
    Alike stopped related' (x >>= f) (y >>= g) := by
  cases h with
  | halts halt => exact .halts halt
  | ends same => exact k _ _ same
  | stops halt => exact .stops halt

theorem Alike.foldlM {f g : α → β → Except ε α} {items : List β}
    (step : ∀ a b, ∀ item ∈ items, related a b → Alike stopped related (f a item) (g b item))
    {a b : α} (h : related a b) :
    Alike stopped related (items.foldlM f a) (items.foldlM g b) := by
  induction items generalizing a b with
  | nil => exact .ends h
  | cons item items ih =>
      rw [List.foldlM_cons, List.foldlM_cons]
      refine (step a b item List.mem_cons_self h).bind fun a b h => ?_
      exact ih (fun a b item listed => step a b item (List.mem_cons_of_mem _ listed)) h

end Results

/-- A relation between two kinds of progress that a walk keeps up. -/
structure Lockstep (settings : Settings) (stopped : Halt → Prop)
    (related : Progress → Progress → Prop) : Prop where
  write : ∀ source pieces p q, related p q →
    Alike stopped related (write source pieces p) (write source pieces q)
  index : ∀ p q, related p q → indexOf settings p = indexOf settings q
  keep : ∀ p q index, related p q → indexOf settings p = .ok index →
    related { p with index := some index } { q with index := some index }
  read : ∀ source part p q, related p q →
    readSection settings source part p = readSection settings source part q

/-- Walks at the same place. -/
def Abreast (related : Progress → Progress → Prop) (s t : Place × Progress) : Prop :=
  s.1 = t.1 ∧ related s.2 t.2

theorem Alike.at_place {stopped : Halt → Prop} {related : Progress → Progress → Prop}
    {x y : Except Halt Progress} (place : Place) (h : Alike stopped related x y) :
    Alike stopped (Abreast related) (do return (place, ← x)) (do return (place, ← y)) :=
  h.bind fun _ _ same => .ends ⟨rfl, same⟩

theorem finish_alike {stopped : Halt → Prop} {related : Progress → Progress → Prop}
    (source : String) (error : Option SyntaxError) {s t : Place × Progress}
    (h : Abreast related s t) :
    Alike stopped related (finish source error s) (finish source error t) := by
  obtain ⟨place, same⟩ := h
  simp only [finish, place]
  split
  · exact .halts _
  · split
    · exact .halts _
    · exact .ends same

namespace Lockstep
variable {settings : Settings} {stopped : Halt → Prop} {related : Progress → Progress → Prop}
  (lockstep : Lockstep settings stopped related)
include lockstep

theorem expandApply (source : String) (values : List Token) {p q : Progress} (h : related p q) :
    Alike stopped related (expandApply settings source values p)
      (expandApply settings source values q) := by
  simp only [Convert.expandApply]
  cases namesOf source values with
  | error halt => exact .halts halt
  | ok names =>
      have same := lockstep.index p q h
      cases found : indexOf settings p with
      | error halt =>
          rw [← same, found]
          exact .halts halt
      | ok index =>
          rw [← same, found]
          have kept := lockstep.keep p q index h found
          simp only [bind, Except.bind]
          split
          · exact .halts _
          · exact lockstep.write source _ _ _ kept

theorem event {expand expand' : List Token → Progress → Except Halt Progress} (source : String)
    (checker : Option (String → Bool))
    (expands : ∀ values p q, related p q →
      Alike stopped related (expand values p) (expand' values q))
    {p q : Progress} (h : related p q) (place : Place) (e : Event) :
    Alike stopped (Abreast related) (event settings source checker expand place p e)
      (event settings source checker expand' place q e) := by
  have written (place : Place) := (lockstep.write source e.pieces p q h).at_place place
  cases e with
  | atRule name values =>
      simp only [Convert.event]
      split
      · exact (expands values p q h).at_place place
      split
      · exact (lockstep.expandApply source values h).at_place place
      · exact written place
  | endAtRule =>
      simp only [Convert.event]
      split
      · exact .halts _
      · exact written _
  | beginRuleset selector =>
      simp only [Convert.event]
      split
      · exact .ends ⟨rfl, h⟩
      · exact written _
  | beginAtRule _ _ | selectorGroup _ | endRuleset | declaration _ _ | customProperty _ _
  | marker _ | comment _ => exact written _

theorem walkEvent {expand expand' : List Token → Progress → Except Halt Progress} (source : String)
    (checker : Option (String → Bool))
    (expands : ∀ values p q, related p q →
      Alike stopped related (expand values p) (expand' values q))
    {s t : Place × Progress} (h : Abreast related s t) (e : Event) :
    Alike stopped (Abreast related) (walkEvent settings source checker expand s e)
      (walkEvent settings source checker expand' t e) := by
  obtain ⟨place, p⟩ := s
  obtain ⟨_, q⟩ := t
  obtain ⟨rfl, same⟩ := h
  simp only [Convert.walkEvent]
  split
  · exact .ends ⟨rfl, same⟩
  · exact lockstep.event source checker expands same place e

theorem expandSection {walkSection walkSection' : Section → Text → Progress → Except Halt Progress}
    (source : String)
    (walks : ∀ part css p q, related p q →
      Alike stopped related (walkSection part css p) (walkSection' part css q))
    (values : List Token) (p q : Progress) (h : related p q) :
    Alike stopped related (expandSection settings source walkSection values p)
      (expandSection settings source walkSection' values q) := by
  simp only [Convert.expandSection]
  cases sectionOf source values with
  | error halt => exact .halts halt
  | ok part =>
      show Alike _ _ (readSection settings source part p >>= fun css => walkSection part css p)
        (readSection settings source part q >>= fun css => walkSection' part css q)
      rw [lockstep.read source part p q h]
      cases readSection settings source part q with
      | error halt => exact .halts halt
      | ok css => exact walks part css p q h

theorem walk (read : SectionReader) (budget : Nat) (source : String)
    (checker : Option (String → Bool)) (reading : Reading) {p q : Progress} (h : related p q) :
    Alike stopped related (walk settings read budget source checker reading p)
      (walk settings read budget source checker reading q) := by
  induction budget generalizing source checker reading p q with
  | zero => exact .halts _
  | succ budget ih =>
      have expands := lockstep.expandSection source fun part css _ _ =>
        ih part.sourceName (sectionChecker settings part) (read part css)
      have start : Abreast related (.start, p) (.start, q) := ⟨rfl, h⟩
      refine (Alike.foldlM (fun _ _ e _ same => ?_) start).bind fun _ _ =>
        finish_alike source reading.error
      exact lockstep.walkEvent source checker expands same e

end Lockstep
end UtilityCss.Convert
