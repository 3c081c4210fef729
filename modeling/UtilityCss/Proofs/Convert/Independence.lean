import Mathlib.Data.List.Basic
import UtilityCss.Proofs.Convert.Filtering
import UtilityCss.Proofs.Convert.Lockstep
import UtilityCss.Proofs.Convert.Rendering

/-!
Inputs do not see each other. What a walk does depends on what was done before only through the text
that is out by then and the index it may find: the first is gone past, the second is the index that
would be built anew. So a run on several inputs puts out what runs on each of them would, and it is
of no account when the index is built and how often.
-/
namespace UtilityCss

/-- An input that reads the same whatever has been output by then. -/
def Convert.Input.Steady (input : Convert.Input) : Prop :=
  ∀ sent sent', input.source.text sent = input.source.text sent'

namespace Convert

/-- Progress in front of an output that takes everything. -/
structure Unlimited (dist : Distribution) (p : Progress) : Prop extends Standing dist p where
  room : p.output.room = none

theorem start_unlimited (dist : Distribution) : Unlimited dist ⟨.start none, none⟩ :=
  ⟨start_standing dist none, rfl⟩

/-- Progress that has put out what another one has, after some text. -/
structure Follows (dist : Distribution) (before : Text) (p q : Progress) : Prop where
  left : Unlimited dist p
  right : Unlimited dist q
  text : p.output.text = before ++ q.output.text

theorem Unlimited.follows_start {dist : Distribution} {p : Progress} (h : Unlimited dist p) :
    Follows dist p.output.text p ⟨.start none, none⟩ :=
  ⟨h, start_unlimited dist, (List.append_nil _).symm⟩

theorem Unlimited.follows_self {dist : Distribution} {p : Progress} (h : Unlimited dist p) :
    Follows dist [] p p :=
  ⟨h, h, rfl⟩

def Progress.forget (p : Progress) : Progress :=
  { p with index := none }

theorem Follows.forget {dist : Distribution} {before : Text} {p q : Progress}
    (h : Follows dist before p q) : Follows dist before p q.forget :=
  ⟨h.left, ⟨⟨h.right.counted, nofun⟩, h.right.room⟩, h.text⟩

section Walk
variable {settings : Settings} {before : Text} {p q : Progress}

theorem Unlimited.write {dist : Distribution} (h : Unlimited dist p) (source : String)
    (pieces : List Text) : ∃ p', write source pieces p = .ok p' ∧ Unlimited dist p' ∧
      p'.output.text = p.output.text ++ pieces.flatten := by
  obtain ⟨output, written, room⟩ := Output.writeAll_unlimited h.room pieces
  have done : Convert.write source pieces p = .ok { p with output } := by
    rw [Convert.write, written]
  obtain ⟨standing, text⟩ := h.toStanding.write done
  exact ⟨_, done, ⟨standing, room⟩, text⟩

theorem Follows.write {dist : Distribution} (h : Follows dist before p q) (source : String)
    (pieces : List Text) : Alike (fun _ => False) (Follows dist before) (write source pieces p)
      (write source pieces q) := by
  obtain ⟨p', left, standing, text⟩ := h.left.write source pieces
  obtain ⟨q', right, standing', text'⟩ := h.right.write source pieces
  rw [left, right]
  exact .ends ⟨standing, standing', by rw [text, text', h.text, List.append_assoc]⟩

theorem ofDistribution_steady {dist : Distribution} (steady : dist.Steady)
    (sent sent' : List Text) :
    ApplyIndex.ofDistribution dist sent = ApplyIndex.ofDistribution dist sent' := by
  rw [ApplyIndex.ofDistribution, ApplyIndex.ofDistribution, steady _ sent sent']

/-- An index that is kept is the one that would be built now. -/
theorem Standing.indexOf_eq (steady : settings.dist.Steady) (h : Standing settings.dist p) :
    indexOf settings p = indexOf settings p.forget := by
  cases kept : p.index with
  | none => rw [Progress.forget, ← kept]
  | some index =>
      obtain ⟨sent, built⟩ := h.index index kept
      rw [ofDistribution_steady steady sent p.output.sent] at built
      simp only [indexOf, kept, Progress.forget, built]

theorem Follows.indexOf_eq (steady : settings.dist.Steady) (h : Follows settings.dist before p q) :
    indexOf settings p = indexOf settings q := by
  rw [h.left.toStanding.indexOf_eq steady, h.right.toStanding.indexOf_eq steady]
  simp only [indexOf, Progress.forget, ofDistribution_steady steady p.output.sent q.output.sent]

theorem Unlimited.keep {dist : Distribution} {index : ApplyIndex} (h : Unlimited dist p)
    (built : ∃ sent, ApplyIndex.ofDistribution dist sent = .ok index) :
    Unlimited dist { p with index := some index } :=
  ⟨⟨h.counted, fun _ same => Option.some.inj same ▸ built⟩, h.room⟩

theorem readSection_steady {dist : Distribution} (steady : dist.Steady) (source : String)
    (part : Section) (p q : Progress) (checker : Option (String → Bool)) :
    readSection ⟨dist, checker⟩ source part p = readSection ⟨dist, checker⟩ source part q := by
  simp only [readSection, steady part p.output.sent q.output.sent]

theorem follows_lockstep (steady : settings.dist.Steady) (before : Text) :
    Lockstep settings (fun _ => False) (Follows settings.dist before) where
  write source pieces _ _ h := h.write source pieces
  index _ _ h := h.indexOf_eq steady
  keep _ _ _ h found :=
    have built := h.left.toStanding.indexOf_built found
    ⟨h.left.keep built, h.right.keep built, h.text⟩
  read source part p q _ := readSection_steady steady source part p q settings.checker

end Walk

/-- A walk of one reading that makes the index anew for every event. -/
def walkReadingAnew (settings : Settings) (source : String) (checker : Option (String → Bool))
    (expand : List Token → Progress → Except Halt Progress) (reading : Reading) (p : Progress) :
    Except Halt Progress := do
  let walkAnew (state : Place × Progress) (e : Event) :=
    walkEvent settings source checker expand (state.1, state.2.forget) e
  finish source reading.error (← reading.events.foldlM walkAnew (.start, p))

/-- A walk in which no index is kept from one `@apply` to the next, in sections as well. -/
def walkAnew (settings : Settings) (read : SectionReader) : Nat → String →
    Option (String → Bool) → Reading → Progress → Except Halt Progress
  | 0, _, _, _, _ => .error .endless
  | budget + 1, source, checker, reading, p =>
    let walkSection (part : Section) (css : Text) : Progress → Except Halt Progress :=
      walkAnew settings read budget part.sourceName (sectionChecker settings part) (read part css)
    walkReadingAnew settings source checker (expandSection settings source walkSection) reading p

def walkInputAnew (settings : Settings) (read : SectionReader) (budget : Nat) (p : Progress)
    (input : Input) : Except Halt Progress :=
  match input.source.text p.output.sent with
  | .error error => fail (.io input.name error)
  | .ok css => walkAnew settings read budget input.name none (Reading.ofText css input.inline) p

/-- A run that makes the index anew at every `@apply`, wherever it stands. -/
def runAnew (settings : Settings) (read : SectionReader) (budget : Nat) (inputs : List Input)
    (room : Option Room) : Except Halt Output := do
  let p ← inputs.foldlM (walkInputAnew settings read budget) ⟨.start room, none⟩
  match p.output.flush with
  | .error error => fail (.io outputName error)
  | .ok output => return output

section Run
variable {settings : Settings} {read : SectionReader} {before : Text} {p q : Progress}

theorem walkAnew_alike (steady : settings.dist.Steady) (budget : Nat) (source : String)
    (checker : Option (String → Bool)) (reading : Reading)
    (h : Follows settings.dist before p q) :
    Alike (fun _ => False) (Follows settings.dist before)
      (walk settings read budget source checker reading p)
      (walkAnew settings read budget source checker reading q) := by
  have lockstep := follows_lockstep steady before
  induction budget generalizing source checker reading p q with
  | zero => exact .halts _
  | succ budget ih =>
      have expands := lockstep.expandSection source fun part css _ _ =>
        ih part.sourceName (sectionChecker settings part) (read part css)
      have start : Abreast (Follows settings.dist before) (.start, p) (.start, q) := ⟨rfl, h⟩
      refine (Alike.foldlM (fun s t e _ same => ?_) start).bind fun _ _ =>
        finish_alike source reading.error
      -- The second walk has forgotten its index when it comes to the event.
      have forgot : Abreast (Follows settings.dist before) s (t.1, t.2.forget) :=
        ⟨same.1, same.2.forget⟩
      exact lockstep.walkEvent source checker expands forgot e

theorem walkInputAnew_alike (read : SectionReader) (steady : settings.dist.Steady) (budget : Nat)
    {input : Input} (fixed : input.Steady) (h : Follows settings.dist before p q) :
    Alike (fun _ => False) (Follows settings.dist before) (walkInput settings read budget p input)
      (walkInputAnew settings read budget q input) := by
  simp only [walkInput, walkInputAnew, fixed p.output.sent q.output.sent]
  cases input.source.text q.output.sent with
  | error error => exact .halts _
  | ok css => exact walkAnew_alike steady budget input.name none _ h

theorem walkInput_alike (read : SectionReader) (steady : settings.dist.Steady) (budget : Nat)
    {input : Input} (fixed : input.Steady) (h : Follows settings.dist before p q) :
    Alike (fun _ => False) (Follows settings.dist before) (walkInput settings read budget p input)
      (walkInput settings read budget q input) := by
  simp only [walkInput, fixed p.output.sent q.output.sent]
  cases input.source.text q.output.sent with
  | error error => exact .halts _
  | ok css => exact (follows_lockstep steady before).walk read budget input.name none _ h

/-- What a run comes to once its inputs are walked. -/
theorem map_text_flush {dist : Distribution} {x : Except Halt Progress}
    (h : ∀ p, x = .ok p → Unlimited dist p) :
    (x >>= fun p => match p.output.flush with
      | .error error => fail (.io outputName error)
      | .ok output => return output).map Output.text = x.map (·.output.text) := by
  cases x with
  | error halt => rfl
  | ok p =>
      have free := h p rfl
      obtain ⟨output, flushed, _⟩ := Output.flush_unlimited free.room
      have text := (Output.flush_text free.counted flushed).2.1
      show (match p.output.flush with | .error _ => _ | .ok _ => _ : Except Halt Output).map _ = _
      rw [flushed]
      exact congrArg Except.ok text

theorem Alike.left_unlimited {dist : Distribution} {x y : Except Halt Progress}
    (h : Alike (fun _ => False) (Follows dist before) x y) (p : Progress) (ends : x = .ok p) :
    Unlimited dist p := by
  subst ends
  cases h with
  | ends follows => exact follows.left
  | stops never => exact never.elim

theorem Alike.right_unlimited {dist : Distribution} {x y : Except Halt Progress}
    (h : Alike (fun _ => False) (Follows dist before) x y) (p : Progress) (ends : y = .ok p) :
    Unlimited dist p := by
  subst ends
  cases h with
  | ends follows => exact follows.right

/-- The text that a run on one input alone puts out. -/
def alone (settings : Settings) (read : SectionReader) (budget : Nat) (input : Input) :
    Except Halt Text :=
  (runWith settings read budget [input] none).map Output.text

theorem alone_eq (steady : settings.dist.Steady) (budget : Nat) {input : Input}
    (fixed : input.Steady) :
    alone settings read budget input =
      (walkInput settings read budget ⟨.start none, none⟩ input).map (·.output.text) := by
  have one (p : Progress) : [input].foldlM (walkInput settings read budget) p =
      walkInput settings read budget p input := by
    rw [List.foldlM_cons]
    exact bind_pure _
  have walked := walkInput_alike read steady budget fixed
    (start_unlimited settings.dist).follows_self
  rw [alone, runWith, one]
  exact map_text_flush walked.left_unlimited

theorem foldlM_walkInput_text (steady : settings.dist.Steady) (budget : Nat) {inputs : List Input}
    (fixed : ∀ input ∈ inputs, input.Steady) (h : Unlimited settings.dist p) :
    (inputs.foldlM (walkInput settings read budget) p).map (·.output.text) =
      (inputs.mapM (alone settings read budget)).map (p.output.text ++ ·.flatten) := by
  induction inputs generalizing p with
  | nil => exact congrArg Except.ok (List.append_nil _).symm
  | cons input inputs ih =>
      have first := fixed input List.mem_cons_self
      have walked := walkInput_alike read steady budget first h.follows_start
      rw [List.foldlM_cons, List.mapM_cons, alone_eq steady budget first]
      generalize walkInput settings read budget p input = x at walked
      generalize walkInput settings read budget ⟨.start none, none⟩ input = y at walked
      cases walked with
      | halts halt => rfl
      | @ends p' q' follows =>
          have others := fun input listed => fixed input (List.mem_cons_of_mem _ listed)
          refine (ih others follows.left).trans ?_
          show _ = ((inputs.mapM (alone settings read budget)) >>= fun texts =>
            pure (q'.output.text :: texts)).map _
          cases inputs.mapM (alone settings read budget) with
          | error halt => rfl
          | ok texts => exact congrArg Except.ok (by simp [follows.text])
      | stops never => exact never.elim

end Run

/-- Without a limit to the output a run on steady inputs and sections comes to what the runs on its
inputs come to, one after the other, or to the first early end among these; and so does a run that
makes the index anew at every `@apply`. -/
theorem run_eq_separate_runs {settings : Settings} {inputs : List Input}
    (steady : settings.dist.Steady) (fixed : ∀ input ∈ inputs, input.Steady) (budget : Nat) :
    let run (inputs : List Input) :=
      (runWith settings wholeSection budget inputs none).map Output.text
    run inputs = List.flatten <$> inputs.mapM (fun input => run [input]) ∧
      (runAnew settings wholeSection budget inputs none).map Output.text = run inputs := by
  intro run
  have start := (start_unlimited settings.dist).follows_self
  have step (p q : Progress) (input : Input) (listed : input ∈ inputs)
      (h : Follows settings.dist [] p q) :=
    walkInputAnew_alike wholeSection steady budget (fixed input listed) h
  have walked := Alike.foldlM step start
  have text : run inputs = (inputs.foldlM (walkInput settings wholeSection budget)
      ⟨.start none, none⟩).map (·.output.text) := map_text_flush walked.left_unlimited
  constructor
  · rw [text, foldlM_walkInput_text steady budget fixed (start_unlimited settings.dist)]
    rfl
  · have text' : (runAnew settings wholeSection budget inputs none).map Output.text =
        (inputs.foldlM (walkInputAnew settings wholeSection budget) ⟨.start none, none⟩).map
          (·.output.text) := map_text_flush walked.right_unlimited
    rw [text, text']
    generalize inputs.foldlM (walkInput settings wholeSection budget) _ = x at walked
    generalize inputs.foldlM (walkInputAnew settings wholeSection budget) _ = y at walked
    cases walked with
    | halts halt => rfl
    | ends follows => exact congrArg Except.ok follows.text.symm
    | stops never => exact never.elim

/-- The second input finds the index that the first one had built in a section. -/
theorem run_separate_applies :
    let dist : Distribution := .inMemory (fun part => if part = .utilities then
      some ".a\x7bb:c\x7d.d\x7bx:y\x7d".toList else some "i\x7b@apply d\x7d".toList) none
    let input (text : String) : Input := ⟨"in", .steady (.ofText text.toList), false⟩
    let run (inputs : List Input) :=
      (runWith ⟨dist, none⟩ wholeSection walkBudget inputs none).map Output.text
    run [input "@tailwind base;", input "e\x7b@apply a d\x7d"] =
        .ok "i\x7bx:y;\x7de\x7bb:c;x:y;\x7d".toList ∧
      run [input "@tailwind base;", input "@apply f;", input "\x7d"] =
        .error (.error (.unknownApply "in" ['f'])) := by
  intro dist input run
  have fixed (texts : List String) : ∀ i ∈ texts.map input, i.Steady := by
    intro i listed sent sent'
    obtain ⟨text, _, rfl⟩ := List.mem_map.mp listed
    rfl
  have steady : dist.Steady := by
    intro part
    cases part <;> exact fun _ _ => rfl
  have apart (texts : List String) :=
    (@run_eq_separate_runs ⟨dist, none⟩ _ steady (fixed texts) walkBudget).1
  constructor
  · refine (apart ["@tailwind base;", "e\x7b@apply a d\x7d"]).trans ?_
    decide +kernel
  · refine (apart ["@tailwind base;", "@apply f;", "\x7d"]).trans ?_
    decide +kernel

end Convert
end UtilityCss
