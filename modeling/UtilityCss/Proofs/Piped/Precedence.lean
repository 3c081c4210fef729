import Mathlib.Data.List.Basic
import UtilityCss.Minify
import UtilityCss.Proofs.Basic
import UtilityCss.Proofs.Piped.Soundness

/-!
Which outcome a conversion with a transform has. An error of the conversion is the outcome, unless
all it says is that nobody reads and the transform has an error too. So after an error of the
transform it does not matter whether a conversion that is all right by itself is told that nobody
reads; and after a transform that has read to the end nothing was refused.
-/
namespace UtilityCss.Piped
open UtilityCss.Convert

/-- However the two go on, they come to an end, and to this outcome. -/
inductive EndsAs {σ : Type} (worker : Worker σ) (outcome : Except Halt Unit) : State σ → Prop
  | ended {s} : s.result? = some outcome → EndsAs worker outcome s
  | goes {s} : (∃ a s', s.step worker a = some s') →
      (∀ a s', s.step worker a = some s' → EndsAs worker outcome s') → EndsAs worker outcome s

section Progress
variable {σ : Type} {own : Except Halt Unit} {whole : Octets} {worker : Worker σ} {s : State σ}

theorem Sound.producer_progress (h : Sound own whole worker s) :
    (∃ a s', s.step worker a = some s') ∨ (∃ next, s.producer = .waits next) ∨
      ∃ result, s.producer = .left result := by
  cases producer : s.producer with
  | runs p =>
      obtain ⟨w, last, ready, _⟩ := h.ready_of_runs producer
      cases p with
      | returns result => exact .inl (Steps.leaves producer (Conduit.step_dropWriter ready)).enabled
      | calls c next => exact .inl (Steps.calls producer (Conduit.step_call ready c)).enabled
  | waits next => exact .inr (.inl ⟨next, rfl⟩)
  | left result => exact .inr (.inr ⟨result, rfl⟩)

theorem Sound.worker_progress (h : Sound own whole worker s) :
    (∃ a s', s.step worker a = some s') ∨ (∃ next, s.worker = .waits next) ∨
      ∃ joined, s.worker = .ended joined := by
  cases working : s.worker with
  | runs place =>
      obtain ⟨r, last, ready, _⟩ := h.ready_of_running working
      refine .inl ?_
      cases does : worker.does place with
      | reads size next => exact (Steps.reads working does (Conduit.step_read ready size)).enabled
      | writes octets next => exact (Steps.refused .notUtf8 working does).enabled
      | flushes next => exact (Steps.flushes (.ok ()) working does).enabled
      | returns result =>
          exact (Steps.returns working does (Conduit.step_dropReader ready)).enabled
      | panics => exact (Steps.panics working does (Conduit.step_dropReader ready)).enabled
  | flushes => exact .inl (Steps.ends (.ok ()) working).enabled
  | waits next => exact .inr (.inl ⟨next, rfl⟩)
  | ended joined => exact .inr (.inr ⟨joined, rfl⟩)

theorem Sound.progress (h : Sound own whole worker s) (unfinished : s.result? = none) :
    ∃ a s', s.step worker a = some s' := by
  obtain step | ⟨next, producer⟩ | ⟨result, producer⟩ := h.producer_progress
  · exact step
  · obtain ⟨chunk, count, w, sending, _⟩ := h.sending_of_waits producer
    obtain step | ⟨next', working⟩ | ⟨joined, working⟩ := h.worker_progress
    · exact step
    · obtain ⟨r, size, _, receiving, _⟩ := h.receiving_of_waiting working
      -- Both are within a call, and a queue is not full and empty at once.
      obtain ⟨conduit, sent | received⟩ := @Conduit.send_or_receive s.conduit (by simp [sending])
        (by simp [receiving]) (by simp [sending])
      · exact (Steps.sends producer sent).enabled
      · exact (Steps.receives working received).enabled
    · have refusal := Conduit.send_dropped sending (h.dropped_of_ended working)
      exact (Steps.sends producer refusal).enabled
  · obtain ⟨dropped, _⟩ := h.dropped_of_left producer
    obtain step | ⟨next', working⟩ | ⟨joined, working⟩ := h.worker_progress
    · exact step
    · obtain ⟨r, size, _, receiving, _⟩ := h.receiving_of_waiting working
      obtain ⟨conduit, received⟩ := Conduit.receive_dropped dropped receiving
      exact (Steps.receives working received).enabled
    · simp [State.result?, producer, working] at unfinished

end Progress

section Ending
variable {σ : Type} {own outcome : Except Halt Unit} {whole : Octets} {worker : Worker σ}
  {s s' : State σ} {joined : Joined}

theorem settle_ended {result : Except Halt Unit} (left : s.producer = .left result)
    (ended : s.worker = .ended joined) : s.result? = some (settle result joined.consumed) := by
  simp only [State.result?, left, ended]

/-- Once the worker has ended, only the conversion goes on. -/
theorem Steps.of_ended (ended : s.worker = .ended joined) (h : Steps worker s s') :
    s'.worker = .ended joined ∧
      ((∃ c next, s.producer = .runs (.calls c next) ∧ s.conduit.step (.call c) = some s'.conduit ∧
        s'.producer = .resume s'.conduit next) ∨
      (∃ result, s.producer = .runs (.returns result) ∧ s'.producer = .left result) ∨
      ∃ next, s.producer = .waits next ∧ s.conduit.step .send = some s'.conduit ∧
        s'.producer = .resume s'.conduit next) := by
  cases h with
  | calls producer step => exact ⟨ended, .inl ⟨_, _, producer, step, rfl⟩⟩
  | leaves producer _ => exact ⟨ended, .inr (.inl ⟨_, producer, rfl⟩)⟩
  | sends producer step => exact ⟨ended, .inr (.inr ⟨_, producer, step, rfl⟩)⟩
  | reads running | receives running | returns running | panics running | writes running
  | refused _ running | flushes _ running | ends _ running => cases ended.symm.trans running

/-- A chunk that nobody is there to take is refused in the next step, the only one there is. -/
theorem endsAs_waiting {next : Except IoError Nat → Producer} {chunk : Octets} {count : Nat}
    {w : Conduit.Writer} (reachable : Conduit.Reachable s.conduit)
    (producer : s.producer = .waits next) (sending : s.conduit.writer = .sending chunk count w)
    (dropped : s.conduit.reader = .dropped) (ended : s.worker = .ended joined)
    (goes : ∀ s' : State σ, Conduit.Reachable s'.conduit →
      s'.producer = .runs (next (.error Conduit.brokenPipe)) →
      s'.conduit.writer = .ready w (some (.error Conduit.brokenPipe)) →
      s'.conduit.reader = .dropped → s'.worker = .ended joined → EndsAs worker outcome s') :
    EndsAs worker outcome s := by
  have refusal := Conduit.send_dropped sending dropped
  refine .goes (Steps.sends producer refusal).enabled ?_
  intro a s' step
  obtain ⟨ended, ⟨_, _, calls, _⟩ | ⟨_, returns, _⟩ | ⟨_, waits, sent, resumed⟩⟩ :=
    (steps_of_step step).of_ended ended
  · cases producer.symm.trans calls
  · cases producer.symm.trans returns
  · cases producer.symm.trans waits
    have conduit := Option.some.inj (refusal.symm.trans sent)
    have writer := congrArg Conduit.State.writer conduit
    simp only [Producing.resume, ← writer] at resumed
    have dropped := (congrArg Conduit.State.reader conduit).symm.trans dropped
    exact goes s' (reachable.step sent) resumed writer.symm dropped ended

/-- When the worker has ended, whatever the conversion can still come to it comes to. -/
theorem endsAs_of_ends {P : Except Halt Unit → Prop}
    (settles : ∀ result, P result → settle result joined.consumed = outcome) {p : Producer}
    (ends : p.Ends P) {w : Conduit.Writer} {last : Option (Except IoError Nat)}
    (reachable : Conduit.Reachable s.conduit) (producer : s.producer = .runs p)
    (ready : s.conduit.writer = .ready w last) (dropped : s.conduit.reader = .dropped)
    (ended : s.worker = .ended joined) : EndsAs worker outcome s := by
  induction p generalizing s w last with
  | returns result =>
      refine .goes (Steps.leaves producer (Conduit.step_dropWriter ready)).enabled ?_
      intro a s' step
      obtain ⟨ended, ⟨_, _, calls, _⟩ | ⟨_, returns, left⟩ | ⟨_, waits, _⟩⟩ :=
        (steps_of_step step).of_ended ended
      · cases producer.symm.trans calls
      · cases producer.symm.trans returns
        exact .ended (settles _ ends ▸ settle_ended left ended)
      · cases producer.symm.trans waits
  | calls c next ih =>
      obtain ⟨taken, refused⟩ := ends
      refine .goes (Steps.calls producer (Conduit.step_call ready c)).enabled ?_
      intro a s' step
      obtain ⟨ended, ⟨_, _, calls, called, resumed⟩ | ⟨_, returns, _⟩ | ⟨_, waits, _⟩⟩ :=
        (steps_of_step step).of_ended ended
      · cases producer.symm.trans calls
        have dropped := (Conduit.sameReading_of_writes (.call c) called).reader.trans dropped
        have answered := reachable.conserves.called_answered ready c
        have conduit := Option.some.inj ((Conduit.step_call ready c).symm.trans called)
        rw [conduit] at answered
        have reachable := reachable.step called
        cases answered with
        | now writer answers _ _ =>
            simp only [Producing.resume, writer] at resumed
            obtain rfl | ⟨rfl, _⟩ := answers
            · exact ih _ taken reachable resumed writer dropped ended
            · exact ih _ refused reachable resumed writer dropped ended
        | later writer _ _ =>
            simp only [Producing.resume, writer] at resumed
            refine endsAs_waiting reachable resumed writer dropped ended ?_
            intro s'' reachable producer ready dropped ended
            exact ih _ refused reachable producer ready dropped ended
      · cases producer.symm.trans returns
      · cases producer.symm.trans waits

/-- When the transform has read to the end and is over, the conversion has its own outcome left. -/
theorem Sound.endsAs_own (h : Sound own whole worker s) (ended : s.worker = .ended joined)
    (read : s.conduit.ended = true) : EndsAs worker (settle own joined.consumed) s := by
  have track := h.onTrack (.inr read)
  have hungUp := (h.conduit.conserves.ended read).1
  simp only [Conduit.State.connected] at hungUp
  generalize producer : s.producer = x at track
  cases track with
  | runs ready on _ _ => simp [ready, on] at hungUp
  | waits sending _ _ _ | closes sending _ _ _ => simp [sending] at hungUp
  | closed ready _ _ _ =>
      exact endsAs_of_ends (fun result (same : result = own) => by rw [same])
        (show Producer.Ends (· = own) (.returns own) from rfl) h.conduit producer ready
        (h.dropped_of_ended ended) ended
  | left _ _ => exact .ended (settle_ended producer ended)

theorem Sound.read_whole (h : Sound own whole worker s) (good : own = .ok ())
    (read : s.conduit.ended = true) : s.conduit.got = whole := by
  have track := h.onTrack (.inr read)
  have conserves := h.conduit.conserves
  obtain ⟨hungUp, sent⟩ := conserves.ended read
  have put (kept : s.conduit.writer ≠ .dropped ∨ s.conduit.closed = true) :
      s.conduit.got = s.conduit.put := by
    have written := conserves.writing (.inr read) kept
    rw [conserves.quiet hungUp, List.append_nil] at written
    exact sent.trans written
  simp only [Conduit.State.connected] at hungUp
  generalize s.producer = x at track
  cases track with
  | runs ready on _ _ => simp [ready, on] at hungUp
  | waits sending _ _ _ | closes sending _ _ _ => simp [sending] at hungUp
  | closed _ _ done all => exact (put (.inr done)).trans all
  | left _ done => exact (put (.inr (done good).1)).trans (done good).2

theorem settle_error {error : ConvertError} (other : isBrokenPipe error = false)
    (consumed : Except ConvertError Unit) : settle (fail error) consumed = fail error := by
  cases consumed with
  | ok _ => rfl
  | error error' => simp [settle, fail, other]

theorem settle_expected {result : Except Halt Unit} (expected : Expected (.ok ()) result)
    (error : ConvertError) : settle result (.error error) = fail error := by
  obtain rfl | ⟨source, rfl⟩ := expected
  · rfl
  · rfl

theorem of_settle_ok {produced : Except Halt Unit} {consumed : Except ConvertError Unit}
    (h : settle produced consumed = .ok ()) : produced = .ok () ∧ consumed = .ok () := by
  rcases produced with (error | _) | _ <;> cases consumed <;> cases h
  exact ⟨rfl, rfl⟩

theorem of_consumed_ok (h : joined.consumed = .ok ()) : joined = .returned (.ok ()) := by
  rcases joined with (error | _) | _ <;> cases h
  rfl

/-- An error of the transform is what a conversion that is all right by itself comes to. -/
theorem Sound.endsAs_consumed (h : Sound (.ok ()) whole worker s) {error : ConvertError}
    (ended : s.worker = .ended joined) (bad : joined.consumed = .error error) :
    EndsAs worker (fail error) s := by
  have settles (result : Except Halt Unit) (expected : Expected (.ok ()) result) :
      settle result joined.consumed = fail error := bad ▸ settle_expected expected error
  have dropped := h.dropped_of_ended ended
  cases producer : s.producer with
  | runs p =>
      obtain ⟨w, last, ready, ends⟩ := h.ready_of_runs producer
      exact endsAs_of_ends settles ends h.conduit producer ready dropped ended
  | waits next =>
      obtain ⟨chunk, count, w, sending, _, refused⟩ := h.sending_of_waits producer
      refine endsAs_waiting h.conduit producer sending dropped ended ?_
      intro s' reachable producer ready dropped ended
      exact endsAs_of_ends settles refused reachable producer ready dropped ended
  | left result =>
      obtain ⟨_, expected⟩ := h.dropped_of_left producer
      exact .ended (settles _ expected ▸ settle_ended producer ended)

/-- After a good end of both, the destination holds what the transform makes of what was read. -/
theorem Sound.sink_eq (h : Sound own whole worker s)
    (ended : s.worker = .ended (.returned (.ok ()))) (read : s.conduit.ended = true)
    {transform : Transform} (performs : worker.Performs transform) :
    transform s.conduit.got = .finished s.sink := by
  have attends := h.attends
  rw [ended] at attends
  cases attends with
  | returned _ does alone =>
      rw [read] at alone
      exact performs _ _ _ alone does

theorem Sound.of_good_end (h : Sound own whole worker s) (good : s.result? = some (.ok ())) :
    own = .ok () ∧ s.worker = .ended (.returned (.ok ())) := by
  simp only [State.result?] at good
  split at good
  next left ended =>
    obtain ⟨rfl, consumed⟩ := of_settle_ok (Option.some.inj good)
    obtain ⟨_, same | ⟨_, refused⟩⟩ := h.dropped_of_left left
    · exact ⟨same.symm, ended.trans (congrArg _ (of_consumed_ok consumed))⟩
    · cases refused
  next => cases good

end Ending

theorem Reachable.run {σ : Type} {p : Producer} {worker : Worker σ} {s s' : State σ}
    (h : Reachable p worker s) {actions : List Action}
    (ran : actions.foldlM (State.step worker) s = some s') : Reachable p worker s' :=
  foldlM_some (fun _ _ _ reached _ step => reached.step step) h ran

/-- Wherever a conversion and its transform have got to: once the transform has failed or panicked,
a conversion that is all right by itself comes to what became of the transform. Once the transform
has read to the end and is over, however it ended, a conversion with an error of its own comes to
that error, and one that is all right by itself, as the transform is, comes to a good end; the
destination then holds what the transform makes of the output. Nothing comes to a good end unless
both are all right, and as long as the two are not over, one of them can go on. -/
theorem piped_outcome {σ : Type} {settings : Settings} {inputs : List Input}
    (d : Delivery settings inputs) (worker : Worker σ) {s : State σ}
    (h : Reachable d.producer worker s) :
    (outcome settings inputs none = .ok () →
      (∀ error, s.worker = .ended (.returned (.error error)) →
        EndsAs worker (fail (.postProcess error)) s) ∧
      (s.worker = .ended .panicked →
        EndsAs worker (fail (.internal workerName .workerPanicked)) s)) ∧
    (∀ error joined, outcome settings inputs none = fail error → isBrokenPipe error = false →
      s.worker = .ended joined → s.conduit.ended = true → EndsAs worker (fail error) s) ∧
    (∀ output, run settings inputs none = .ok output →
      s.worker = .ended (.returned (.ok ())) → s.conduit.ended = true →
      EndsAs worker (.ok ()) s ∧ s.conduit.got = Octets.ofText output.text ∧
        ∀ transform, worker.Performs transform →
          transform (Octets.ofText output.text) = .finished s.sink ∧
            runThrough transform settings inputs = .ok s.sink) ∧
    (s.result? = some (.ok ()) → outcome settings inputs none = .ok () ∧
      s.worker = .ended (.returned (.ok ()))) ∧
    (s.result? = none → ∃ a s', s.step worker a = some s') := by
  obtain ⟨whole, delivers, output_eq⟩ := d.producer_delivers
  have sound := h.sound delivers
  refine ⟨fun good => ?_, fun error joined bad other ended read => ?_,
    fun output ran ended read => ?_, sound.of_good_end, sound.progress⟩
  · rw [good] at sound
    exact ⟨fun error ended => sound.endsAs_consumed ended rfl,
      fun ended => sound.endsAs_consumed ended rfl⟩
  · have ends := sound.endsAs_own ended read
    rwa [bad, settle_error other] at ends
  · have good : outcome settings inputs none = .ok () := by rw [outcome, ran]; rfl
    have got := (sound.read_whole good read).trans (output_eq output ran)
    have ends := sound.endsAs_own ended read
    rw [good] at ends
    refine ⟨ends, got, fun transform performs => ?_⟩
    have finished := sound.sink_eq ended read performs
    rw [got] at finished
    refine ⟨finished, ?_⟩
    simp only [runThrough, ran, bind, Except.bind, finished]
    rfl

/-- A run with the transform that drops semicolons, reading and writing by turns. -/
theorem piped_minifies :
    let settings : Settings := ⟨.inMemory (fun _ => none) none, none⟩
    let inputs : List Input := [⟨"in.css", .steady (.ofText "a\x7bb:c\x7d".toList), false⟩]
    let p := (Delivery.once settings inputs).producer
    let worker := Worker.gathering Minify.minify fun _ => ⟨16, by decide⟩
    ∃ s, Reachable p worker s ∧ s.result? = some (.ok ()) ∧
      s.conduit.got = Octets.ofText "a\x7bb:c;\x7d".toList ∧
      s.sink = Octets.ofText "a\x7bb:c\x7d".toList ∧
      runThrough (fun octets => .finished (Minify.minify octets)) settings inputs = .ok s.sink := by
  intro settings inputs p worker
  have text : (run settings inputs none).map Output.text = .ok "a\x7bb:c;\x7d".toList := by
    decide +kernel
  let actions : List Action := [.produce, .produce, .work, .send, .receive, .work, .produce,
    .produce, .receive, .sink (.ok 2), .sink (.ok 4), .sink (.ok 0), .work, .sink (.ok 0)]
  have finished : (actions.foldlM (State.step worker) (.start p worker)).map
      (fun s => (s.conduit.ended, s.result?)) = some (true, some (.ok ())) := by
    decide +kernel
  obtain ⟨s, steps, finished⟩ := Option.map_eq_some_iff.mp finished
  obtain ⟨read, good⟩ := Prod.mk.inj finished
  have reachable := Reachable.start.run steps
  obtain ⟨_, _, finishes, onlyGood, _⟩ := piped_outcome (.once settings inputs) worker reachable
  cases ran : run settings inputs none with
  | error halt =>
      rw [ran] at text
      cases text
  | ok output =>
      rw [ran] at text
      have text := Except.ok.inj text
      obtain ⟨_, got, performs⟩ := finishes output ran (onlyGood good).2 read
      obtain ⟨finished, through⟩ := performs _ (gathering_performs Minify.minify _)
      rw [text] at got finished
      refine ⟨s, reachable, good, got, ?_, through⟩
      exact (Ending.finished.inj finished).symm.trans (by decide +kernel)

end UtilityCss.Piped
