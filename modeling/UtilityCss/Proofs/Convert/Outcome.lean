import UtilityCss.Convert

/-!
What a run comes to, whatever it says where it fails. The name of a source is told in errors only,
and of a section that does not open nothing but its error is known. So sources may be renamed, and
sections exchanged for such as open to the same, without anything else being put out.
-/
namespace UtilityCss.Convert

section Results
variable {ε ε' α β : Type}

theorem toOption_cases {x : Except ε α} {y : Except ε' α} (h : x.toOption = y.toOption) :
    (∃ a, x = .ok a ∧ y = .ok a) ∨ ∃ e e', x = .error e ∧ y = .error e' := by
  cases x with
  | error e => cases y <;> cases h; exact .inr ⟨e, _, rfl, rfl⟩
  | ok a => cases y <;> cases h; exact .inl ⟨a, rfl, rfl⟩

theorem ok_of_toOption {x : Except ε α} {y : Except ε' α} (h : x.toOption = y.toOption) {a : α}
    (ok : x = .ok a) : y = .ok a := by
  obtain ⟨_, first, second⟩ | ⟨_, _, first, _⟩ := toOption_cases h <;>
    rw [ok] at first <;> cases first
  exact second

theorem toOption_bind_congr {x : Except ε α} {y : Except ε' α} {f : α → Except ε β}
    {g : α → Except ε' β} (first : x.toOption = y.toOption)
    (next : ∀ a, (f a).toOption = (g a).toOption) :
    (x >>= f).toOption = (y >>= g).toOption := by
  obtain ⟨a, rfl, rfl⟩ | ⟨_, _, rfl, rfl⟩ := toOption_cases first
  · exact next a
  · rfl

theorem toOption_foldlM_congr {f g : α → β → Except ε α}
    (step : ∀ a item, (f a item).toOption = (g a item).toOption) (items : List β) (a : α) :
    (items.foldlM f a).toOption = (items.foldlM g a).toOption := by
  induction items generalizing a with
  | nil => rfl
  | cons item items ih =>
      rw [List.foldlM_cons, List.foldlM_cons]
      exact toOption_bind_congr (step a item) ih

theorem toOption_mapError (x : Except ε α) (f : ε → ε') : (x.mapError f).toOption = x.toOption := by
  cases x <;> rfl

end Results

/-- Settings under which sections open to the same and the same rules go. -/
structure Interchangeable (settings settings' : Settings) : Prop where
  sections : ∀ part,
    (settings.dist.openSection part).toOption = (settings'.dist.openSection part).toOption
  checker : settings.checker = settings'.checker

theorem Interchangeable.refl (settings : Settings) : Interchangeable settings settings :=
  ⟨fun _ => rfl, rfl⟩

section Source
variable (source source' : String)

theorem write_outcome (pieces : List Text) (p : Progress) :
    (write source pieces p).toOption = (write source' pieces p).toOption := by
  simp only [write]
  split <;> rfl

theorem sectionOf_outcome (values : List Token) :
    (sectionOf source values).toOption = (sectionOf source' values).toOption := by
  simp only [sectionOf]
  split
  · split
    · rfl
    · split <;> rfl
  · rfl

theorem namesOf_outcome (values : List Token) :
    (namesOf source values).toOption = (namesOf source' values).toOption := by
  simp only [namesOf]
  split <;> rfl

theorem finish_outcome {error error' : Option SyntaxError} (same : error.isSome = error'.isSome)
    (state : Place × Progress) :
    (finish source error state).toOption = (finish source' error' state).toOption := by
  cases error <;> cases error' <;> cases same
  · simp only [finish]
    split <;> rfl
  · rfl

end Source

namespace Interchangeable
variable {settings settings' : Settings} (h : Interchangeable settings settings')
  (source source' : String)
include h

theorem read (part : Section) (sent : List Text) :
    (settings.dist.read part sent).toOption = (settings'.dist.read part sent).toOption :=
  toOption_bind_congr (h.sections part) fun _ => rfl

theorem readSection (part : Section) (p : Progress) :
    (readSection settings source part p).toOption =
      (readSection settings' source' part p).toOption := by
  rw [Convert.readSection, Convert.readSection]
  obtain ⟨css, read, read'⟩ | ⟨_, _, read, read'⟩ := toOption_cases (h.read part p.output.sent)
  · rw [read, read']
  · rw [read, read']
    rfl

theorem indexOf (p : Progress) :
    (indexOf settings p).toOption = (indexOf settings' p).toOption := by
  simp only [Convert.indexOf, ApplyIndex.ofDistribution]
  split
  · rfl
  · have same := h.read .utilities p.output.sent
    obtain ⟨css, read, read'⟩ | ⟨_, _, read, read'⟩ := toOption_cases same
    · rw [read, read']
    · rw [read, read']
      rfl

theorem expandApply (values : List Token) (p : Progress) :
    (expandApply settings source values p).toOption =
      (expandApply settings' source' values p).toOption := by
  refine toOption_bind_congr (namesOf_outcome source source' values) fun names => ?_
  refine toOption_bind_congr (h.indexOf p) fun index => ?_
  split
  · rfl
  · exact write_outcome source source' _ _

theorem expandSection {walkSection walkSection' : Section → Text → Progress → Except Halt Progress}
    (walks : ∀ part css p, (walkSection part css p).toOption = (walkSection' part css p).toOption)
    (values : List Token) (p : Progress) :
    (expandSection settings source walkSection values p).toOption =
      (expandSection settings' source' walkSection' values p).toOption := by
  refine toOption_bind_congr (sectionOf_outcome source source' values) fun part => ?_
  exact toOption_bind_congr (h.readSection source source' part p) fun css => walks part css p

theorem event (checker : Option (String → Bool))
    {expand expand' : List Token → Progress → Except Halt Progress}
    (expands : ∀ values p, (expand values p).toOption = (expand' values p).toOption)
    (place : Place) (p : Progress) (e : Event) :
    (event settings source checker expand place p e).toOption =
      (event settings' source' checker expand' place p e).toOption := by
  have written (place : Place) : (do return (place, ← write source e.pieces p)).toOption =
      (do return (place, ← write source' e.pieces p)).toOption :=
    toOption_bind_congr (write_outcome source source' e.pieces p) fun _ => rfl
  cases e with
  | atRule name values =>
      simp only [Convert.event]
      split
      · exact toOption_bind_congr (expands values p) fun _ => rfl
      split
      · exact toOption_bind_congr (h.expandApply source source' values p) fun _ => rfl
      · exact written place
  | endAtRule =>
      simp only [Convert.event]
      split
      · rfl
      · exact written _
  | beginRuleset selector =>
      simp only [Convert.event]
      split
      · rfl
      · exact written _
  | beginAtRule _ _ | selectorGroup _ | endRuleset | declaration _ _ | customProperty _ _
  | marker _ | comment _ => exact written _

theorem walkEvent (checker : Option (String → Bool))
    {expand expand' : List Token → Progress → Except Halt Progress}
    (expands : ∀ values p, (expand values p).toOption = (expand' values p).toOption)
    (state : Place × Progress) (e : Event) :
    (walkEvent settings source checker expand state e).toOption =
      (walkEvent settings' source' checker expand' state e).toOption := by
  simp only [Convert.walkEvent]
  split
  · rfl
  · exact h.event source source' checker expands state.1 state.2 e

theorem walk (read : SectionReader) (budget : Nat) (checker : Option (String → Bool))
    (reading : Reading) (p : Progress) :
    (walk settings read budget source checker reading p).toOption =
      (walk settings' read budget source' checker reading p).toOption := by
  induction budget generalizing source source' checker reading p with
  | zero => rfl
  | succ budget ih =>
      have walks (part : Section) (css : Text) (p : Progress) :=
        ih part.sourceName part.sourceName (sectionChecker settings part) (read part css) p
      have checks (part : Section) :
          sectionChecker settings part = sectionChecker settings' part := by
        rw [sectionChecker, sectionChecker, h.checker]
      simp only [Convert.walk, ← checks]
      have expands := h.expandSection source source' walks
      have step := h.walkEvent source source' checker expands
      exact toOption_bind_congr (toOption_foldlM_congr step reading.events (.start, p))
        (finish_outcome source source' rfl)

theorem run (inputs : List Input) (room : Option Room) :
    (run settings inputs room).toOption = (run settings' inputs room).toOption := by
  refine toOption_bind_congr (toOption_foldlM_congr (fun p input => ?_) inputs _) fun _ => rfl
  simp only [walkInput]
  split
  · rfl
  · exact h.walk input.name input.name wholeSection walkBudget none _ p

theorem runThrough (transform : Transform) (inputs : List Input) :
    (runThrough transform settings inputs).toOption =
      (runThrough transform settings' inputs).toOption :=
  toOption_bind_congr (h.run inputs none) fun _ => rfl

end Interchangeable
end UtilityCss.Convert
