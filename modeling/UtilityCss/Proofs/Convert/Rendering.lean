import Mathlib.Data.List.Basic
import UtilityCss.Proofs.Convert.Purging
import UtilityCss.Proofs.Convert.Writing

/-!
What a conversion comes to. The output is the text of the events of all inputs, with sections and
declarations in the place of the directives that ask for them. No directive is passed over: a run
that cannot expand one fails.
-/
namespace UtilityCss.Convert
open UtilityCss.Output

def isDirectiveName (name : Text) : Bool :=
  isDirective "@tailwind" name || isDirective "@apply" name

/-- Directives are statements; an at-rule with a block is none, whatever its name. -/
def isDirectiveEvent : Event → Bool
  | .atRule name _ => isDirectiveName name
  | _ => false

/-- Events and the text they come to, given how sections are taken apart. What is asked of the
distribution may depend on the pieces that are sent by then. -/
inductive Renders (dist : Distribution) (read : SectionReader) : List Event → Text → Prop
  | nil : Renders dist read [] []
  | written {e rest text} : isDirectiveEvent e = false → Renders dist read rest text →
      Renders dist read (e :: rest) (e.written ++ text)
  | expanded {name values source part sent css body rest text} :
      isDirective "@tailwind" name = true → sectionOf source values = .ok part →
      dist.read part sent = .ok css → Renders dist read (read part css).events body →
      Renders dist read rest text → Renders dist read (.atRule name values :: rest) (body ++ text)
  | applied {name values source names sent index body rest text} :
      isDirective "@apply" name = true → namesOf source values = .ok names →
      ApplyIndex.ofDistribution dist sent = .ok index → index.apply names = .ok body →
      Renders dist read rest text → Renders dist read (.atRule name values :: rest) (body ++ text)

theorem Renders.eq_written {dist : Distribution} {read : SectionReader} {events : List Event}
    {text : Text} (h : Renders dist read events text)
    (direct : ∀ e ∈ events, isDirectiveEvent e = false) : text = events.flatMap Event.written := by
  induction h with
  | nil => rfl
  | written _ _ ih =>
      rw [ih fun e inside => direct e (List.mem_cons_of_mem _ inside), List.flatMap_cons]
  | expanded named | applied named =>
      have plain := direct _ List.mem_cons_self
      simp [isDirectiveEvent, isDirectiveName, named] at plain

/-- Progress between events: all that is written is counted, and the index, once built, is one of
the distribution. -/
structure Standing (dist : Distribution) (p : Progress) : Prop where
  counted : p.output.Counted
  index : ∀ index, p.index = some index → ∃ sent, ApplyIndex.ofDistribution dist sent = .ok index

section Walk
variable {settings : Settings} {source : String}
  {expand : List Token → Progress → Except Halt Progress}

theorem Standing.write {dist : Distribution} {pieces : List Text} {p p' : Progress}
    (h : Standing dist p) (written : write source pieces p = .ok p') :
    Standing dist p' ∧ p'.output.text = p.output.text ++ pieces.flatten := by
  rw [Convert.write] at written
  split at written <;> cases written
  next output written =>
    obtain ⟨counted, text⟩ := writeAll_text h.counted written
    exact ⟨⟨counted, h.index⟩, text⟩

/-- The index that an `@apply` is given is one of the distribution, whether it is kept or made. -/
theorem Standing.indexOf_built {index : ApplyIndex} {p : Progress} (h : Standing settings.dist p)
    (found : indexOf settings p = .ok index) :
    ∃ sent, ApplyIndex.ofDistribution settings.dist sent = .ok index := by
  rw [indexOf] at found
  split at found
  next known =>
    cases found
    exact h.index index known
  next =>
    split at found <;> cases found
    next made => exact ⟨_, made⟩

theorem Standing.apply {values : List Token} {p p' : Progress} (h : Standing settings.dist p)
    (applied : expandApply settings source values p = .ok p') :
    ∃ names sent index body, namesOf source values = .ok names ∧
      ApplyIndex.ofDistribution settings.dist sent = .ok index ∧ index.apply names = .ok body ∧
      Standing settings.dist p' ∧ p'.output.text = p.output.text ++ body := by
  obtain ⟨names, named, applied⟩ := bind_eq_ok.mp applied
  obtain ⟨index, found, applied⟩ := bind_eq_ok.mp applied
  obtain ⟨sent, made⟩ := h.indexOf_built found
  split at applied
  · cases applied
  next body bodies =>
    have known : Standing settings.dist { p with index := some index } := by
      refine ⟨h.counted, fun index' same => ?_⟩
      cases same
      exact ⟨sent, made⟩
    obtain ⟨standing, text⟩ := known.write applied
    exact ⟨names, sent, index, body, named, made, bodies, standing, by simpa using text⟩

/-- What an event does to the progress of a walk without a checker: it is written or, as a
directive, expanded. -/
inductive Walks (settings : Settings) (source : String)
    (expand : List Token → Progress → Except Halt Progress) (p : Progress) :
    Event → Progress → Prop
  | written {e p'} : isDirectiveEvent e = false → write source e.pieces p = .ok p' →
      Walks settings source expand p e p'
  | expanded {name values p'} : isDirective "@tailwind" name = true → expand values p = .ok p' →
      Walks settings source expand p (.atRule name values) p'
  | applied {name values p'} : isDirective "@apply" name = true →
      expandApply settings source values p = .ok p' →
      Walks settings source expand p (.atRule name values) p'

theorem walks_of_write {place place' : Place} {e : Event} {p p' : Progress}
    (plain : isDirectiveEvent e = false)
    (h : (do return (place, ← write source e.pieces p)) = .ok (place', p')) :
    Walks settings source expand p e p' := by
  obtain ⟨p₁, written, same⟩ := bind_eq_ok.mp h
  cases same
  exact .written plain written

theorem event_walks {place place' : Place} {e : Event} {p p' : Progress}
    (h : event settings source none expand place p e = .ok (place', p')) :
    Walks settings source expand p e p' := by
  cases e with
  | atRule name values =>
      simp only [event] at h
      split at h
      next tailwind =>
        obtain ⟨p₁, expanded, same⟩ := bind_eq_ok.mp h
        cases same
        exact .expanded tailwind expanded
      next plain =>
        split at h
        next apply =>
          obtain ⟨p₁, applied, same⟩ := bind_eq_ok.mp h
          cases same
          exact .applied apply applied
        next other =>
          exact walks_of_write (by simp [isDirectiveEvent, isDirectiveName, plain, other]) h
  | endAtRule =>
      simp only [event] at h
      split at h
      · cases h
      · exact walks_of_write rfl h
  | beginRuleset selector =>
      simp only [event, purges, Bool.and_false] at h
      exact walks_of_write rfl h
  | beginAtRule _ _ | selectorGroup _ | endRuleset | declaration _ _ | customProperty _ _
  | marker _ | comment _ => exact walks_of_write rfl h

/-- A walk of events that writes what they come to, if the sections in it do. -/
theorem foldlM_renders {read : SectionReader} {events : List Event} {place : Place} {p : Progress}
    {state : Place × Progress}
    (expands : ∀ values p p', Standing settings.dist p → expand values p = .ok p' →
      ∃ part sent css body, sectionOf source values = .ok part ∧
        settings.dist.read part sent = .ok css ∧
        Renders settings.dist read (read part css).events body ∧ Standing settings.dist p' ∧
        p'.output.text = p.output.text ++ body)
    (kept : place.purged = 0) (standing : Standing settings.dist p)
    (h : events.foldlM (walkEvent settings source none expand) (place, p) = .ok state) :
    ∃ text, Renders settings.dist read events text ∧ Standing settings.dist state.2 ∧
      state.2.output.text = p.output.text ++ text := by
  induction events generalizing place p with
  | nil =>
      cases h
      exact ⟨[], .nil, standing, (List.append_nil _).symm⟩
  | cons e events ih =>
      rw [List.foldlM_cons] at h
      obtain ⟨⟨place', p'⟩, step, rest⟩ := bind_eq_ok.mp h
      rw [walkEvent, if_neg (by simp [kept])] at step
      have kept' : place'.purged = 0 := (event_unchecked_place step).1.trans kept
      cases event_walks step with
      | written plain written =>
          obtain ⟨standing, first⟩ := standing.write written
          obtain ⟨text, renders, standing, whole⟩ := ih kept' standing rest
          exact ⟨_, .written plain renders, standing, by simp [whole, first, Event.written]⟩
      | expanded named expanded =>
          obtain ⟨part, sent, css, body, asked, read, section_, standing, first⟩ :=
            expands _ _ _ standing expanded
          obtain ⟨text, renders, standing, whole⟩ := ih kept' standing rest
          exact ⟨_, .expanded named asked read section_ renders, standing, by simp [whole, first]⟩
      | applied named applied =>
          obtain ⟨names, sent, index, body, asked, made, bodies, standing, first⟩ :=
            standing.apply applied
          obtain ⟨text, renders, standing, whole⟩ := ih kept' standing rest
          exact ⟨_, .applied named asked made bodies renders, standing, by simp [whole, first]⟩

end Walk

theorem of_finish_ok {source : String} {error : Option SyntaxError} {state : Place × Progress}
    {p' : Progress} (h : finish source error state = .ok p') : state.2 = p' := by
  simp only [finish] at h
  split at h
  · cases h
  · split at h <;> cases h
    rfl

theorem walk_renders {dist : Distribution} {read : SectionReader} {budget : Nat} {source : String}
    {reading : Reading} {p p' : Progress} (standing : Standing dist p)
    (h : walk ⟨dist, none⟩ read budget source none reading p = .ok p') :
    ∃ text, Renders dist read reading.events text ∧ Standing dist p' ∧
      p'.output.text = p.output.text ++ text := by
  induction budget generalizing source reading p p' with
  | zero => cases h
  | succ budget ih =>
      obtain ⟨state, walked, finished⟩ := bind_eq_ok.mp h
      rw [← of_finish_ok finished]
      refine foldlM_renders (fun values p p' standing expanded => ?_) rfl standing walked
      obtain ⟨part, asked, expanded⟩ := bind_eq_ok.mp expanded
      obtain ⟨css, opened, expanded⟩ := bind_eq_ok.mp expanded
      have unchecked : sectionChecker ⟨dist, none⟩ part = none := ite_self none
      simp only [unchecked] at expanded
      obtain ⟨body, renders, standing, text⟩ := ih standing expanded
      have found : dist.read part p.output.sent = .ok css := by
        simp only [readSection] at opened
        split at opened <;> cases opened
        assumption
      exact ⟨part, _, css, body, asked, found, renders, standing, text⟩

/-- How the sections are taken apart under some settings: the utilities without what the checker
gives up. -/
def sectionReader (settings : Settings) : SectionReader :=
  match settings.checker with
  | some purge => prunedUtilities purge
  | none => wholeSection

theorem walk_sectionReader (settings : Settings) (budget : Nat) (source : String)
    {reading : Reading} (h : Nests reading) (p : Progress) :
    walk settings wholeSection budget source none reading p =
      walk ⟨settings.dist, none⟩ (sectionReader settings) budget source none reading p := by
  obtain ⟨dist, checker⟩ := settings
  cases checker with
  | none => rfl
  | some purge => exact walk_pruned dist purge budget source none h p

theorem walkInput_renders {settings : Settings} {budget : Nat} {input : Input} {p p' : Progress}
    (standing : Standing settings.dist p)
    (h : walkInput settings wholeSection budget p input = .ok p') :
    ∃ css text, input.source.text p.output.sent = .ok css ∧
      Renders settings.dist (sectionReader settings) (Reading.ofText css input.inline).events text ∧
      Standing settings.dist p' ∧ p'.output.text = p.output.text ++ text := by
  simp only [walkInput] at h
  split at h
  · cases h
  next css read =>
    rw [walk_sectionReader settings budget _ (nests_ofText css input.inline)] at h
    obtain ⟨text, renders, standing, whole⟩ := walk_renders standing h
    exact ⟨css, text, read, renders, standing, whole⟩

/-- The text that an input comes to. -/
def Input.Renders (settings : Settings) (input : Input) (text : Text) : Prop :=
  ∃ sent css, input.source.text sent = .ok css ∧
    Convert.Renders settings.dist (sectionReader settings) (Reading.ofText css input.inline).events
      text

theorem exists_input_of_mem {settings : Settings} {inputs : List Input} {texts : List Text}
    (h : List.Forall₂ (Input.Renders settings) inputs texts) {text : Text} (inside : text ∈ texts) :
    ∃ input ∈ inputs, input.Renders settings text := by
  induction h with
  | nil => cases inside
  | @cons input _ inputs _ first _ ih =>
      obtain rfl | later := List.mem_cons.mp inside
      · exact ⟨input, List.mem_cons_self, first⟩
      · obtain ⟨found, listed, renders⟩ := ih later
        exact ⟨found, List.mem_cons_of_mem _ listed, renders⟩

theorem foldlM_walkInput_renders {settings : Settings} {budget : Nat} {inputs : List Input}
    {p p' : Progress} (standing : Standing settings.dist p)
    (h : inputs.foldlM (walkInput settings wholeSection budget) p = .ok p') :
    ∃ texts, List.Forall₂ (Input.Renders settings) inputs texts ∧ Standing settings.dist p' ∧
      p'.output.text = p.output.text ++ texts.flatten := by
  induction inputs generalizing p with
  | nil =>
      cases h
      exact ⟨[], .nil, standing, (List.append_nil _).symm⟩
  | cons input inputs ih =>
      rw [List.foldlM_cons] at h
      obtain ⟨p₁, walked, rest⟩ := bind_eq_ok.mp h
      obtain ⟨css, text, read, renders, standing, first⟩ := walkInput_renders standing walked
      obtain ⟨texts, others, standing, whole⟩ := ih standing rest
      exact ⟨text :: texts, .cons ⟨_, css, read, renders⟩ others, standing, by simp [whole, first]⟩

theorem start_standing (dist : Distribution) (room : Option Room) :
    Standing dist ⟨.start room, none⟩ :=
  ⟨start_counted room, nofun⟩

theorem runWith_eq_ok {settings : Settings} {read : SectionReader} {budget : Nat}
    {inputs : List Input} {room : Option Room} {output : Output}
    (ran : runWith settings read budget inputs room = .ok output) :
    ∃ p, inputs.foldlM (walkInput settings read budget) ⟨.start room, none⟩ = .ok p ∧
      (p.output.Counted → output.text = p.output.text) := by
  obtain ⟨p, walked, flushed⟩ := bind_eq_ok.mp ran
  split at flushed
  · cases flushed
  next done =>
    cases flushed
    exact ⟨p, walked, fun counted => (flush_text counted done).2.1⟩

/-- A run that succeeds has put out what its inputs come to, one after the other. -/
theorem runWith_renders {settings : Settings} {budget : Nat} {inputs : List Input}
    {room : Option Room} {output : Output}
    (ran : runWith settings wholeSection budget inputs room = .ok output) :
    ∃ texts, List.Forall₂ (Input.Renders settings) inputs texts ∧ output.text = texts.flatten := by
  obtain ⟨p, walked, same⟩ := runWith_eq_ok ran
  obtain ⟨texts, renders, standing, text⟩ :=
    foldlM_walkInput_renders (start_standing settings.dist room) walked
  refine ⟨texts, renders, ?_⟩
  rw [same standing.counted, text]
  rfl

end UtilityCss.Convert
