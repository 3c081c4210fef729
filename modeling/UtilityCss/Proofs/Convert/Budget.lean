import UtilityCss.Proofs.Basic
import UtilityCss.Proofs.Convert.Lockstep

/-!
What a walk needs its budget for. Nothing but a directive for a section can use it up, so a walk
that lacks budget has come to such a directive and lacks it in the walk of that section. A budget
that suffices may be exceeded without anything being done otherwise.
-/
namespace UtilityCss.Convert

/-- A result other than the early end for want of budget. -/
def Ends {α : Type} (x : Except Halt α) : Prop :=
  x ≠ .error .endless

theorem Ends.bind {α β : Type} {x : Except Halt α} {f : α → Except Halt β} (h : Ends x)
    (k : ∀ a, Ends (f a)) : Ends (x >>= f) := by
  cases x with
  | ok a => exact k a
  | error halt =>
      intro same
      cases same
      exact h rfl

theorem Ends.exists_of_bind {α β : Type} {x : Except Halt α} {f : α → Except Halt β} (h : Ends x)
    (endless : (x >>= f) = .error .endless) : ∃ a, x = .ok a ∧ f a = .error .endless := by
  cases x with
  | ok a => exact ⟨a, rfl, endless⟩
  | error halt =>
      cases endless
      exact absurd rfl h

theorem endless_of_bind {α β : Type} {x : Except Halt α} {f : α → Except Halt β}
    (ends : ∀ a, Ends (f a)) (endless : (x >>= f) = .error .endless) : x = .error .endless := by
  cases x with
  | ok a => exact absurd endless (ends a)
  | error halt =>
      cases endless
      rfl

theorem ends_ok {α : Type} (a : α) : Ends (.ok a) := by
  rintro ⟨⟩

theorem ends_fail {α : Type} (error : ConvertError) : Ends (fail error : Except Halt α) := by
  rintro ⟨⟩

section Walk
variable {settings : Settings} {source : String} {checker : Option (String → Bool)}
  {expand : List Token → Progress → Except Halt Progress}

theorem write_ends (source : String) (pieces : List Text) (p : Progress) :
    Ends (write source pieces p) := by
  rw [write]
  split
  · exact ends_fail _
  · exact ends_ok _

theorem sectionOf_ends (source : String) (values : List Token) :
    Ends (sectionOf source values) := by
  rw [sectionOf]
  split
  · split
    · exact ends_fail _
    · split
      · exact ends_ok _
      · exact ends_fail _
  · exact ends_fail _

theorem readSection_ends (settings : Settings) (source : String) (part : Section) (p : Progress) :
    Ends (readSection settings source part p) := by
  rw [readSection]
  split
  · exact ends_fail _
  · exact ends_ok _

theorem namesOf_ends (source : String) (values : List Token) : Ends (namesOf source values) := by
  rw [namesOf]
  split
  · exact ends_fail _
  · exact ends_ok _

theorem indexOf_ends (settings : Settings) (p : Progress) : Ends (indexOf settings p) := by
  rw [indexOf]
  split
  · exact ends_ok _
  · split
    · exact ends_fail _
    · exact ends_ok _

theorem expandApply_ends (settings : Settings) (source : String) (values : List Token)
    (p : Progress) : Ends (expandApply settings source values p) := by
  refine (namesOf_ends source values).bind fun names => ?_
  refine (indexOf_ends settings p).bind fun index => ?_
  split
  · exact ends_fail _
  · exact write_ends _ _ _

theorem finish_ends (source : String) (error : Option SyntaxError) (state : Place × Progress) :
    Ends (finish source error state) := by
  simp only [finish]
  split
  · exact ends_fail _
  · split
    · exact ends_fail _
    · exact ends_ok _

/-- Only a directive for a section can keep a walk from its end. -/
theorem exists_of_event {place : Place} {p : Progress} {e : Event}
    (endless : event settings source checker expand place p e = .error .endless) :
    ∃ name values, e = .atRule name values ∧ isDirective "@tailwind" name = true ∧
      expand values p = .error .endless := by
  have written (place : Place) : Ends (do return (place, ← write source e.pieces p)) :=
    (write_ends source e.pieces p).bind fun _ => ends_ok _
  cases e with
  | atRule name values =>
      simp only [event] at endless
      split at endless
      next directive =>
        exact ⟨name, values, rfl, directive, endless_of_bind (fun _ => ends_ok _) endless⟩
      next =>
        split at endless
        · have applied := expandApply_ends settings source values p
          exact absurd (endless_of_bind (fun _ => ends_ok _) endless) applied
        · exact absurd endless (written place)
  | endAtRule =>
      simp only [event] at endless
      split at endless
      · exact absurd endless (ends_fail _)
      · exact absurd endless (written _)
  | beginRuleset selector =>
      simp only [event] at endless
      split at endless
      · exact absurd endless (ends_ok _)
      · exact absurd endless (written _)
  | beginAtRule _ _ | selectorGroup _ | endRuleset | declaration _ _ | customProperty _ _
  | marker _ | comment _ => exact absurd endless (written _)

theorem exists_of_walkEvent {state : Place × Progress} {e : Event}
    (endless : walkEvent settings source checker expand state e = .error .endless) :
    state.1.purged = 0 ∧ ∃ name values, e = .atRule name values ∧
      isDirective "@tailwind" name = true ∧ expand values state.2 = .error .endless := by
  rw [walkEvent] at endless
  split at endless
  · cases endless
  next kept => exact ⟨Nat.eq_zero_of_not_pos kept, exists_of_event endless⟩

theorem exists_of_expandSection {walkSection : Section → Text → Progress → Except Halt Progress}
    {values : List Token} {p : Progress}
    (endless : expandSection settings source walkSection values p = .error .endless) :
    ∃ part css, sectionOf source values = .ok part ∧ settings.dist.read part p.output.sent =
      .ok css ∧ walkSection part css p = .error .endless := by
  obtain ⟨part, named, endless⟩ := (sectionOf_ends source values).exists_of_bind endless
  obtain ⟨css, opens, endless⟩ := (readSection_ends settings source part p).exists_of_bind endless
  rw [readSection] at opens
  split at opens
  · cases opens
  next read =>
    cases opens
    exact ⟨part, css, named, read, endless⟩

end Walk

section Budget
variable {settings : Settings}

theorem Alike.of_eq {ε α : Type} {stopped : ε → Prop} (x : Except ε α) : Alike stopped Eq x x := by
  cases x with
  | ok a => exact .ends rfl
  | error halt => exact .halts halt

theorem Alike.eq_of_ends {α : Type} {x y : Except Halt α} (h : Alike (· = .endless) Eq x y)
    (ends : Ends y) : x = y := by
  cases h with
  | halts halt => rfl
  | ends same => rw [same]
  | stops endless => exact absurd (congrArg Except.error endless) ends

/-- Runs of which one has more budget do the same for as long as the other goes on. -/
theorem equal_lockstep (settings : Settings) : Lockstep settings (· = .endless) Eq where
  write source pieces p _ same := same ▸ .of_eq (write source pieces p)
  index _ _ same := same ▸ rfl
  keep _ _ _ same _ := same ▸ rfl
  read _ _ _ _ same := same ▸ rfl

theorem walk_more (read : SectionReader) (budget more : Nat) (source : String)
    (checker : Option (String → Bool)) (reading : Reading) (p : Progress) :
    Alike (· = .endless) Eq (walk settings read (budget + more) source checker reading p)
      (walk settings read budget source checker reading p) := by
  induction budget generalizing source checker reading p with
  | zero => exact .stops rfl
  | succ budget ih =>
      rw [Nat.add_right_comm]
      have walks (part : Section) (css : Text) (p q : Progress) (same : p = q) :
          Alike (· = .endless) Eq
            (walk settings read (budget + more) part.sourceName (sectionChecker settings part)
              (read part css) p)
            (walk settings read budget part.sourceName (sectionChecker settings part)
              (read part css) q) := by
        subst same
        exact ih part.sourceName (sectionChecker settings part) (read part css) p
      have expands := (equal_lockstep settings).expandSection source walks
      have start : Abreast Eq (Place.start, p) (Place.start, p) := ⟨rfl, rfl⟩
      refine (Alike.foldlM (fun _ _ e _ same => ?_) start).bind fun _ _ =>
        finish_alike source reading.error
      exact (equal_lockstep settings).walkEvent source checker expands same e

theorem runWith_more (read : SectionReader) (budget more : Nat) (inputs : List Input)
    (room : Option Room) :
    Alike (· = .endless) Eq (runWith settings read (budget + more) inputs room)
      (runWith settings read budget inputs room) := by
  refine (Alike.foldlM (fun p q input _ same => ?_) rfl).bind fun p q same => same ▸ .of_eq _
  subst same
  simp only [walkInput]
  split
  · exact .halts _
  · exact walk_more read budget more input.name none _ p

end Budget

end UtilityCss.Convert
