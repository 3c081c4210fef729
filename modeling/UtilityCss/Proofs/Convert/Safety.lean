import UtilityCss.Convert
import UtilityCss.Proofs.Apply.Building

/-!
Internal errors are out of reach. A walk keeps step with the blocks of the word it walks: the blocks
it counts as purged are innermost, and its depth counts the at-rules around them. So an at-rule is
never closed at depth zero and none is left open at the end of a whole word. Readings are nested
words whatever the source, which carries this through all inputs, sections and applied utilities.
-/
namespace UtilityCss.Convert
open UtilityCss.Parser

def Halt.isInternal : Halt → Bool
  | .error e => e.isInternal
  | .endless => false

/-- A result that has a property, or an early end that is no internal error. -/
def Settles {α : Type} (post : α → Prop) : Except Halt α → Prop
  | .ok a => post a
  | .error halt => halt.isInternal = false

theorem Settles.bind {α β : Type} {pre : α → Prop} {post : β → Prop} {x : Except Halt α}
    {f : α → Except Halt β} (h : Settles pre x) (k : ∀ a, pre a → Settles post (f a)) :
    Settles post (x >>= f) := by
  cases x with
  | ok a => exact k a h
  | error halt => exact h

theorem Settles.foldlM {α β : Type} {inv : α → Prop} {f : α → β → Except Halt α}
    (step : ∀ a b, inv a → Settles inv (f a b)) (items : List β) {a : α} (h : inv a) :
    Settles inv (items.foldlM f a) := by
  induction items generalizing a with
  | nil => exact h
  | cons item items ih =>
      rw [List.foldlM_cons]
      exact (step a item h).bind fun _ => ih

theorem Settles.ne_internal {α : Type} {post : α → Prop} {x : Except Halt α} (h : Settles post x)
    (source : String) (fault : InternalFault) : x ≠ .error (.error (.internal source fault)) := by
  rintro rfl
  cases h

section Walk
variable {settings : Settings} {source : String} {checker : Option (String → Bool)}
  {expand : List Token → Progress → Except Halt Progress}

theorem write_settles (source : String) (pieces : List Text) (p : Progress) :
    Settles (fun _ => True) (write source pieces p) := by
  rw [write]
  split <;> first | rfl | trivial

theorem sectionOf_settles (source : String) (values : List Token) :
    Settles (fun _ => True) (sectionOf source values) := by
  rw [sectionOf]
  split
  · split
    · rfl
    · split <;> first | rfl | trivial
  · rfl

theorem readSection_settles (settings : Settings) (source : String) (part : Section)
    (p : Progress) : Settles (fun _ => True) (readSection settings source part p) := by
  rw [readSection]
  split <;> first | rfl | trivial

theorem namesOf_settles (source : String) (values : List Token) :
    Settles (fun _ => True) (namesOf source values) := by
  rw [namesOf]
  split <;> first | rfl | trivial

theorem ofDistribution_not_internal {dist : Distribution} {sent : List Text}
    {error : ConvertError} (h : ApplyIndex.ofDistribution dist sent = .error error) :
    error.isInternal = false := by
  simp only [ApplyIndex.ofDistribution] at h
  split at h
  · cases h
    rfl
  next css _ =>
    obtain ⟨index, heq⟩ := ApplyIndex.ofStyles_eq Section.utilities.sourceName css
    rw [heq] at h
    split at h <;> cases h
    rfl

theorem indexOf_settles (settings : Settings) (p : Progress) :
    Settles (fun _ => True) (indexOf settings p) := by
  rw [indexOf]
  split
  · trivial
  · split
    next error h => exact ofDistribution_not_internal h
    next => trivial

theorem expandApply_settles (settings : Settings) (source : String) (values : List Token)
    (p : Progress) : Settles (fun _ => True) (expandApply settings source values p) := by
  refine (namesOf_settles source values).bind fun names _ => ?_
  refine (indexOf_settles settings p).bind fun index _ => ?_
  split
  · rfl
  · exact write_settles _ _ _

/-- A place in step with the open blocks, innermost first. -/
structure Place.Tracks (place : Place) (blocks : List Block) : Prop where
  depth : place.depth = (blocks.drop place.purged).count .atRule
  purged : place.purged ≤ blocks.length

theorem Place.tracks_start : Place.start.Tracks [] :=
  ⟨rfl, Nat.le_refl 0⟩

theorem purgedEvent_tracks {inline : Bool} {place : Place} {blocks : List Block} {e : Event}
    (h : place.Tracks blocks) (purging : 0 < place.purged) (fits : e.Fits inline blocks.head?) :
    (purgedEvent place e).Tracks (e.blocksAfter blocks) := by
  cases e with
  | beginAtRule _ _ | beginRuleset _ => exact ⟨h.depth, Nat.succ_le_succ h.purged⟩
  | endAtRule | endRuleset =>
      obtain ⟨blocks, rfl⟩ := List.head?_eq_some_iff.mp fits
      obtain ⟨outer, houter⟩ := Nat.exists_eq_add_of_lt purging
      have depth := h.depth
      have purged := h.purged
      simp only [houter, Nat.zero_add, List.drop_succ_cons, List.length_cons] at depth purged
      exact ⟨by simp [purgedEvent, houter, depth], by simp [purgedEvent, houter]; omega⟩
  | atRule _ _ | selectorGroup _ | declaration _ _ | customProperty _ _ | marker _ | comment _ =>
      exact h

theorem event_settles {inline : Bool} {place : Place} {blocks : List Block} {e : Event}
    (hexpand : ∀ values p, Settles (fun _ => True) (expand values p))
    (h : place.Tracks blocks) (kept : place.purged = 0) (fits : e.Fits inline blocks.head?)
    (p : Progress) :
    Settles (fun state => state.1.Tracks (e.blocksAfter blocks))
      (event settings source checker expand place p e) := by
  have depth : place.depth = blocks.count .atRule := by simpa [kept] using h.depth
  have written (place' : Place) (after : List Block) (tracks : place'.Tracks after) :
      Settles (fun state : Place × Progress => state.1.Tracks after)
        (do return (place', ← write source e.pieces p)) :=
    (write_settles source e.pieces p).bind fun _ _ => tracks
  cases e with
  | atRule name values =>
      simp only [event]
      split
      · exact (hexpand values p).bind fun _ _ => h
      · split
        · exact (expandApply_settles settings source values p).bind fun _ _ => h
        · exact written place _ h
  | beginAtRule name values =>
      exact written _ _ ⟨by simp [kept, depth], by simp [kept]⟩
  | endAtRule =>
      obtain ⟨blocks, rfl⟩ := List.head?_eq_some_iff.mp fits
      have opened : place.depth ≠ 0 := by simp [depth]
      simp only [event, opened, if_false]
      exact written _ _ ⟨by simp [kept, depth], by simp [kept]⟩
  | selectorGroup selector => exact written _ _ ⟨h.depth, h.purged⟩
  | beginRuleset selector =>
      simp only [event]
      split
      · exact ⟨by simp [depth], by simp⟩
      · exact written _ _ ⟨by simp [kept, depth], by simp [kept]⟩
  | endRuleset =>
      obtain ⟨blocks, rfl⟩ := List.head?_eq_some_iff.mp fits
      exact written _ _ ⟨by simpa [kept] using depth, by simp [kept]⟩
  | declaration _ _ | customProperty _ _ | marker _ | comment _ => exact written place _ h

theorem walkEvent_settles {inline : Bool} {state : Place × Progress} {blocks : List Block}
    {e : Event} (hexpand : ∀ values p, Settles (fun _ => True) (expand values p))
    (h : state.1.Tracks blocks) (fits : e.Fits inline blocks.head?) :
    Settles (fun state => state.1.Tracks (e.blocksAfter blocks))
      (walkEvent settings source checker expand state e) := by
  rw [walkEvent]
  split
  next purging => exact purgedEvent_tracks h purging fits
  next kept => exact event_settles hexpand h (by omega) fits state.2

theorem walkEvents_settle {inline : Bool} {blocks after : List Block} {events : List Event}
    (hexpand : ∀ values p, Settles (fun _ => True) (expand values p))
    (word : Nested inline blocks events after) {state : Place × Progress}
    (h : state.1.Tracks blocks) :
    Settles (fun state => state.1.Tracks after)
      (events.foldlM (walkEvent settings source checker expand) state) := by
  induction word generalizing state with
  | nil => exact h
  | cons fits _ _ ih =>
      rw [List.foldlM_cons]
      exact (walkEvent_settles hexpand h fits).bind fun _ => ih

/-- A reading whose word is nested from the top, and whole unless there is an error. -/
def Nests (reading : Reading) : Prop :=
  ∃ inline blocks, Nested inline [] reading.events blocks ∧ (reading.error = none → blocks = [])

theorem nests_ofText (source : Text) (inline : Bool) : Nests (Reading.ofText source inline) :=
  ⟨inline, Reading.nested source inline⟩

theorem walkReading_settles {reading : Reading}
    (hexpand : ∀ values p, Settles (fun _ => True) (expand values p)) (h : Nests reading)
    (p : Progress) :
    Settles (fun _ => True) (walkReading settings source checker expand reading p) := by
  obtain ⟨inline, blocks, word, whole⟩ := h
  refine (walkEvents_settle hexpand word Place.tracks_start).bind fun state tracks => ?_
  simp only [finish]
  split
  · rfl
  next noError =>
    have closed : state.1.depth = 0 := by simpa [whole noError] using tracks.depth
    simp [closed, Settles]

end Walk

theorem walk_settles (settings : Settings) {read : SectionReader}
    (hread : ∀ part css, Nests (read part css)) (budget : Nat) (source : String)
    (checker : Option (String → Bool)) {reading : Reading} (h : Nests reading) (p : Progress) :
    Settles (fun _ => True) (walk settings read budget source checker reading p) := by
  induction budget generalizing source checker reading p with
  | zero => rfl
  | succ budget ih =>
      refine walkReading_settles (fun values p => ?_) h p
      refine (sectionOf_settles source values).bind fun part _ => ?_
      refine (readSection_settles settings source part p).bind fun css _ => ?_
      exact ih _ _ (hread part css) _

theorem runWith_settles (settings : Settings) {read : SectionReader}
    (hread : ∀ part css, Nests (read part css)) (budget : Nat) (inputs : List Input)
    (room : Option Room) :
    Settles (fun _ => True) (runWith settings read budget inputs room) := by
  have walked (p : Progress) (input : Input) :
      Settles (fun _ => True) (walkInput settings read budget p input) := by
    rw [walkInput]
    split
    · rfl
    next css _ => exact walk_settles settings hread budget _ _ (nests_ofText css input.inline) p
  refine (Settles.foldlM (fun p input _ => walked p input) inputs trivial).bind fun p _ => ?_
  split <;> first | rfl | trivial

/-- Runs never end in an internal error, however deep their walks nest and whatever the checker, the
sections and the inputs are; nor does making an index from any styles. -/
theorem run_ne_internal :
    (∀ (settings : Settings) (budget : Nat) (inputs : List Input) (room : Option Room)
      (source : String) (fault : InternalFault),
      runWith settings wholeSection budget inputs room ≠
        .error (.error (.internal source fault))) ∧
    ∀ (name : String) (css : Text) (source : String) (fault : InternalFault),
      ApplyIndex.ofStyles name css ≠ .error (.internal source fault) := by
  constructor
  · intro settings budget inputs room source fault
    have settles :=
      runWith_settles settings (fun _ css => nests_ofText css false) budget inputs room
    exact settles.ne_internal source fault
  · intro name css source fault
    obtain ⟨index, heq⟩ := ApplyIndex.ofStyles_eq name css
    rw [heq]
    split <;> simp

end UtilityCss.Convert
