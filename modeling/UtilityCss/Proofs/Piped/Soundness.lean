import UtilityCss.Proofs.Conduit.Answers
import UtilityCss.Proofs.Piped.Delivering

/-!
How a conversion and its transform go on together. The conversion is on track to its own outcome as
long as somebody reads, and once all has been read; otherwise it may be told that nobody reads, and
nothing else. The transform is where it could have come to by itself, with the octets it has read.
-/
namespace UtilityCss.Piped
open UtilityCss.Convert

/-- What a transform can come to by itself, with the octets it got, whether it has seen the end of
them, and what its destination took. The octets come in pieces of any size that fits, and the
destination answers as it likes. -/
inductive Alone {σ : Type} (worker : Worker σ) : σ → Octets → Bool → Octets → Prop
  | start : Alone worker worker.start [] false []
  | reads {place got sink size next octets} : Alone worker place got false sink →
      worker.does place = .reads size next → octets ≠ [] → octets.length ≤ size →
      Alone worker (next octets) (got ++ octets) false sink
  | ends {place got ended sink size next} : Alone worker place got ended sink →
      worker.does place = .reads size next → Alone worker (next []) got true sink
  | writes {place got ended sink octets next count} : Alone worker place got ended sink →
      worker.does place = .writes octets next → count ≤ octets.length →
      Alone worker (next (.ok count)) got ended (sink ++ octets.take count)
  | refused {place got ended sink octets next} (error) : Alone worker place got ended sink →
      worker.does place = .writes octets next → Alone worker (next (.error error)) got ended sink
  | flushes {place got ended sink next} (answer) : Alone worker place got ended sink →
      worker.does place = .flushes next → Alone worker (next answer) got ended sink

/-- A worker that, whenever it has read all of its input and all goes well, has put out what a
transform makes of it. -/
def Worker.Performs {σ : Type} (worker : Worker σ) (transform : Transform) : Prop :=
  ∀ place got sink, Alone worker place got true sink → worker.does place = .returns (.ok ()) →
    transform got = .finished sink

/-- What a gathering transform has put out goes with what it has read. -/
def Gathering.Holds (f : Octets → Octets) (got sink : Octets) : Gathering → Prop
  | .reads got' => got' = got ∧ sink = []
  | .writes left => sink ++ left = f got
  | .leaves result => result = .ok () → sink = f got

theorem Alone.gathering_holds {f : Octets → Octets} {size : Octets → Conduit.Size}
    {place : Gathering} {got sink : Octets} {ended : Bool}
    (h : Alone (.gathering f size) place got ended sink) : place.Holds f got sink := by
  induction h with
  | start => exact ⟨rfl, rfl⟩
  | @reads place _ _ _ _ octets _ does some _ ih =>
      rcases place with got' | (_ | ⟨b, left⟩) | result <;> cases does
      obtain ⟨rfl, rfl⟩ := ih
      simp only [List.isEmpty_iff, some, if_false]
      exact ⟨rfl, rfl⟩
  | @ends place _ _ _ _ _ _ does ih =>
      rcases place with got' | (_ | ⟨b, left⟩) | result <;> cases does
      obtain ⟨rfl, rfl⟩ := ih
      exact List.nil_append _
  | @writes place _ _ _ _ _ count _ does _ ih =>
      rcases place with got' | (_ | ⟨b, left⟩) | result <;> cases does
      cases count with
      | zero => exact nofun
      | succ count =>
          refine Eq.trans ?_ ih
          rw [List.append_assoc, List.take_append_drop]
  | @refused place _ _ _ _ _ _ _ does _ =>
      rcases place with got' | (_ | ⟨b, left⟩) | result <;> cases does
      exact nofun
  | @flushes place _ _ _ _ answer _ does ih =>
      rcases place with got' | (_ | ⟨b, left⟩) | result <;> cases does
      exact fun _ => (List.append_nil _).symm.trans ih

theorem gathering_performs (f : Octets → Octets) (size : Octets → Conduit.Size) :
    (Worker.gathering f size).Performs (fun octets => .finished (f octets)) := by
  intro place got sink alone does
  have holds := alone.gathering_holds
  rcases place with got' | (_ | ⟨b, left⟩) | result <;> cases does
  exact congrArg Ending.finished (holds rfl).symm

/-- What a step can be. -/
inductive Steps {σ : Type} (worker : Worker σ) (s : State σ) : State σ → Prop
  | calls {c next conduit} : s.producer = .runs (.calls c next) →
      s.conduit.step (.call c) = some conduit →
      Steps worker s { s with conduit, producer := .resume conduit next }
  | leaves {result conduit} : s.producer = .runs (.returns result) →
      s.conduit.step .dropWriter = some conduit →
      Steps worker s { s with conduit, producer := .left result }
  | sends {next conduit} : s.producer = .waits next → s.conduit.step .send = some conduit →
      Steps worker s { s with conduit, producer := .resume conduit next }
  | reads {place size next conduit} : s.worker = .runs place →
      worker.does place = .reads size next → s.conduit.step (.read size) = some conduit →
      Steps worker s { s with conduit, worker := .resume conduit next }
  | receives {next conduit} : s.worker = .waits next → s.conduit.step .receive = some conduit →
      Steps worker s { s with conduit, worker := .resume conduit next }
  | returns {place result conduit} : s.worker = .runs place →
      worker.does place = .returns result → s.conduit.step .dropReader = some conduit →
      Steps worker s { s with
        conduit
        worker := if result.isOk then .flushes else .ended (.returned result) }
  | panics {place conduit} : s.worker = .runs place → worker.does place = .panics →
      s.conduit.step .dropReader = some conduit →
      Steps worker s { s with conduit, worker := .ended .panicked }
  | writes {place octets next count} : s.worker = .runs place →
      worker.does place = .writes octets next → count ≤ octets.length →
      Steps worker s { s with
        worker := .runs (next (.ok count)), sink := s.sink ++ octets.take count }
  | refused {place octets next} (error) : s.worker = .runs place →
      worker.does place = .writes octets next →
      Steps worker s { s with worker := .runs (next (.error error)) }
  | flushes {place next} (answer) : s.worker = .runs place → worker.does place = .flushes next →
      Steps worker s { s with worker := .runs (next answer) }
  | ends (result) : s.worker = .flushes →
      Steps worker s { s with worker := .ended (.returned result) }

theorem steps_of_step {σ : Type} {worker : Worker σ} {s s' : State σ} {a : Action}
    (step : s.step worker a = some s') : Steps worker s s' := by
  cases a with
  | produce =>
      simp only [State.step, State.produce] at step
      split at step
      next producer =>
        obtain ⟨conduit, called, rfl⟩ := Option.map_eq_some_iff.mp step
        exact .calls producer called
      next producer =>
        obtain ⟨conduit, dropped, rfl⟩ := Option.map_eq_some_iff.mp step
        exact .leaves producer dropped
      all_goals cases step
  | send =>
      simp only [State.step, State.send] at step
      split at step
      next producer =>
        obtain ⟨conduit, sent, rfl⟩ := Option.map_eq_some_iff.mp step
        exact .sends producer sent
      all_goals cases step
  | work =>
      simp only [State.step, State.work] at step
      split at step
      next place runs =>
        split at step
        next does =>
          obtain ⟨conduit, called, rfl⟩ := Option.map_eq_some_iff.mp step
          exact .reads runs does called
        next does =>
          obtain ⟨conduit, dropped, rfl⟩ := Option.map_eq_some_iff.mp step
          exact .returns runs does dropped
        next does =>
          obtain ⟨conduit, dropped, rfl⟩ := Option.map_eq_some_iff.mp step
          exact .panics runs does dropped
        all_goals cases step
      all_goals cases step
  | receive =>
      simp only [State.step, State.receive] at step
      split at step
      next waits =>
        obtain ⟨conduit, received, rfl⟩ := Option.map_eq_some_iff.mp step
        exact .receives waits received
      all_goals cases step
  | sink answer =>
      simp only [State.step, State.answer] at step
      split at step
      next place runs =>
        split at step
        next does =>
          split at step
          · split at step <;> cases step
            next fits => exact .writes runs does fits
          · cases step
            exact .refused _ runs does
        next does =>
          cases step
          exact .flushes _ runs does
        all_goals cases step
      next flushes =>
        cases step
        exact .ends _ flushes
      all_goals cases step

theorem Steps.enabled {σ : Type} {worker : Worker σ} {s s' : State σ}
    (h : Steps worker s s') : ∃ a s', s.step worker a = some s' := by
  cases h with
  | calls producer step | leaves producer step =>
      exact ⟨.produce, _, by simp only [State.step, State.produce, producer, step]; rfl⟩
  | sends producer step =>
      exact ⟨.send, _, by simp only [State.step, State.send, producer, step]; rfl⟩
  | reads runs does step | returns runs does step | panics runs does step =>
      exact ⟨.work, _, by simp only [State.step, State.work, runs, does, step]; rfl⟩
  | receives waits step =>
      exact ⟨.receive, _, by simp only [State.step, State.receive, waits, step]; rfl⟩
  | @writes _ _ _ count runs does fits =>
      exact ⟨.sink (.ok count), _, by simp only [State.step, State.answer, runs, does, fits]; rfl⟩
  | refused error runs does =>
      exact ⟨.sink (.error error), _, by simp only [State.step, State.answer, runs, does]; rfl⟩
  | flushes _ runs does =>
      exact ⟨.sink (.ok 0), _, by simp only [State.step, State.answer, runs, does]; rfl⟩
  | ends _ flushes =>
      exact ⟨.sink (.ok 0), _, by simp only [State.step, State.answer, flushes]; rfl⟩

/-- What a conversion can still come to. -/
inductive Expects (own : Except Halt Unit) (conduit : Conduit.State) : Producing → Prop
  | runs {p w last} : conduit.writer = .ready w last → p.Ends (Expected own) →
      Expects own conduit (.runs p)
  | waits {next chunk count w} : conduit.writer = .sending chunk count w →
      (next (.ok count)).Ends (Expected own) →
      (next (.error Conduit.brokenPipe)).Ends (Expected own) → Expects own conduit (.waits next)
  | left {result} : conduit.writer = .dropped → Expected own result →
      Expects own conduit (.left result)

/-- A conversion that has been refused nothing so far. -/
inductive OnTrack (own : Except Halt Unit) (whole : Octets) (conduit : Conduit.State) :
    Producing → Prop
  | runs {p w last rest} : conduit.writer = .ready w last → w.connected = true →
      Delivers own rest p → conduit.put ++ rest = whole → OnTrack own whole conduit (.runs p)
  | closed {w last} : conduit.writer = .ready w last → w.connected = false →
      conduit.closed = true → conduit.put = whole → OnTrack own whole conduit (.runs (.returns own))
  | waits {next chunk count w rest} : conduit.writer = .sending chunk count w →
      w.connected = true → Delivers own rest (next (.ok count)) → conduit.put ++ rest = whole →
      OnTrack own whole conduit (.waits next)
  | closes {next chunk count w} : conduit.writer = .sending chunk count w →
      w.connected = false → next (.ok count) = .returns own → conduit.put = whole →
      OnTrack own whole conduit (.waits next)
  | left : conduit.writer = .dropped →
      (own = .ok () → conduit.closed = true ∧ conduit.put = whole) →
      OnTrack own whole conduit (.left own)

/-- Where a worker stands. It has let go of its end once the transform is over. -/
inductive Attends {σ : Type} (worker : Worker σ) (conduit : Conduit.State) (sink : Octets) :
    Working σ → Prop
  | runs {place r last} : conduit.reader = .ready r last →
      Alone worker place conduit.got conduit.ended sink → Attends worker conduit sink (.runs place)
  | waits {place next r size} : conduit.reader = .receiving r size →
      worker.does place = .reads size next → Alone worker place conduit.got conduit.ended sink →
      Attends worker conduit sink (.waits next)
  | flushes {place} : conduit.reader = .dropped → worker.does place = .returns (.ok ()) →
      Alone worker place conduit.got conduit.ended sink → Attends worker conduit sink .flushes
  | returned {place} : conduit.reader = .dropped → worker.does place = .returns (.ok ()) →
      Alone worker place conduit.got conduit.ended sink →
      Attends worker conduit sink (.ended (.returned (.ok ())))
  | failed {error} : conduit.reader = .dropped →
      Attends worker conduit sink (.ended (.returned (.error error)))
  | panicked : conduit.reader = .dropped → Attends worker conduit sink (.ended .panicked)

/-- What holds wherever a conversion and its transform have got to. -/
structure Sound {σ : Type} (own : Except Halt Unit) (whole : Octets) (worker : Worker σ)
    (s : State σ) : Prop where
  conduit : Conduit.Reachable s.conduit
  expects : Expects own s.conduit s.producer
  onTrack : s.conduit.reader ≠ .dropped ∨ s.conduit.ended = true →
    OnTrack own whole s.conduit s.producer
  attends : Attends worker s.conduit s.sink s.worker

theorem start_sound {σ : Type} {own : Except Halt Unit} {whole : Octets} {p : Producer}
    (delivers : Delivers own whole p) (worker : Worker σ) :
    Sound own whole worker (.start p worker) where
  conduit := .start
  expects := .runs rfl delivers.ends
  onTrack _ := .runs rfl rfl delivers (List.nil_append _)
  attends := .runs rfl .start

section Frame
variable {σ : Type} {own : Except Halt Unit} {whole : Octets} {conduit conduit' : Conduit.State}

theorem Expects.of_sameWriting {producer : Producing} (h : Expects own conduit producer)
    (same : conduit.SameWriting conduit') : Expects own conduit' producer := by
  cases h with
  | runs ready ends => exact .runs (same.writer.trans ready) ends
  | waits sending taken refused => exact .waits (same.writer.trans sending) taken refused
  | left dropped expected => exact .left (same.writer.trans dropped) expected

theorem OnTrack.of_sameWriting {producer : Producing} (h : OnTrack own whole conduit producer)
    (same : conduit.SameWriting conduit') : OnTrack own whole conduit' producer := by
  obtain ⟨writer, put, closed⟩ := same
  cases h with
  | runs ready on delivers all => exact .runs (writer.trans ready) on delivers (put ▸ all)
  | closed ready off done all =>
      exact .closed (writer.trans ready) off (closed.trans done) (put.trans all)
  | waits sending on delivers all => exact .waits (writer.trans sending) on delivers (put ▸ all)
  | closes sending off last all => exact .closes (writer.trans sending) off last (put.trans all)
  | left dropped done =>
      exact .left (writer.trans dropped) fun good =>
        ⟨closed.trans (done good).1, put.trans (done good).2⟩

theorem Attends.of_sameReading {worker : Worker σ} {sink : Octets} {working : Working σ}
    (h : Attends worker conduit sink working) (same : conduit.SameReading conduit') :
    Attends worker conduit' sink working := by
  obtain ⟨reader, got, ended⟩ := same
  have as {place : σ} (alone : Alone worker place conduit.got conduit.ended sink) :
      Alone worker place conduit'.got conduit'.ended sink := by
    rw [got, ended]
    exact alone
  cases h with
  | runs ready alone => exact .runs (reader.trans ready) (as alone)
  | waits receiving does alone => exact .waits (reader.trans receiving) does (as alone)
  | flushes dropped does alone => exact .flushes (reader.trans dropped) does (as alone)
  | returned dropped does alone => exact .returned (reader.trans dropped) does (as alone)
  | failed dropped => exact .failed (reader.trans dropped)
  | panicked dropped => exact .panicked (reader.trans dropped)

end Frame

namespace Sound
variable {σ : Type} {own : Except Halt Unit} {whole : Octets} {worker : Worker σ} {s : State σ}
  {conduit : Conduit.State}

theorem ready_of_runs (h : Sound own whole worker s) {p : Producer}
    (producer : s.producer = .runs p) :
    ∃ w last, s.conduit.writer = .ready w last ∧ p.Ends (Expected own) := by
  have expects := h.expects
  rw [producer] at expects
  cases expects with
  | runs ready ends => exact ⟨_, _, ready, ends⟩

theorem sending_of_waits (h : Sound own whole worker s) {next : Except IoError Nat → Producer}
    (producer : s.producer = .waits next) :
    ∃ chunk count w, s.conduit.writer = .sending chunk count w ∧
      (next (.ok count)).Ends (Expected own) ∧
      (next (.error Conduit.brokenPipe)).Ends (Expected own) := by
  have expects := h.expects
  rw [producer] at expects
  cases expects with
  | waits sending taken refused => exact ⟨_, _, _, sending, taken, refused⟩

theorem dropped_of_left (h : Sound own whole worker s) {result : Except Halt Unit}
    (producer : s.producer = .left result) :
    s.conduit.writer = .dropped ∧ Expected own result := by
  have expects := h.expects
  rw [producer] at expects
  cases expects with
  | left dropped expected => exact ⟨dropped, expected⟩

theorem ready_of_running (h : Sound own whole worker s) {place : σ}
    (working : s.worker = .runs place) : ∃ r last, s.conduit.reader = .ready r last ∧
      Alone worker place s.conduit.got s.conduit.ended s.sink := by
  have attends := h.attends
  rw [working] at attends
  cases attends with
  | runs ready alone => exact ⟨_, _, ready, alone⟩

theorem receiving_of_waiting (h : Sound own whole worker s) {next : Octets → σ}
    (working : s.worker = .waits next) : ∃ r size place, s.conduit.reader = .receiving r size ∧
      worker.does place = .reads size next ∧
      Alone worker place s.conduit.got s.conduit.ended s.sink := by
  have attends := h.attends
  rw [working] at attends
  cases attends with
  | waits receiving does alone => exact ⟨_, _, _, receiving, does, alone⟩

theorem dropped_of_ended (h : Sound own whole worker s) {joined : Joined}
    (working : s.worker = .ended joined) : s.conduit.reader = .dropped := by
  have attends := h.attends
  rw [working] at attends
  cases attends with
  | returned dropped _ _ | failed dropped | panicked dropped => exact dropped

theorem calls (h : Sound own whole worker s) {c : Conduit.Call}
    {next : Except IoError Nat → Producer} (producer : s.producer = .runs (.calls c next))
    (step : s.conduit.step (.call c) = some conduit) :
    Sound own whole worker { s with conduit, producer := .resume conduit next } := by
  have same := Conduit.sameReading_of_writes (.call c) step
  obtain ⟨w, last, ready, taken, refused⟩ := h.ready_of_runs producer
  have conduits := h.conduit.step step
  rw [Conduit.step_call ready] at step
  cases step
  have answered := h.conduit.conserves.called_answered ready c
  refine ⟨conduits, ?_, fun alive => ?_, h.attends.of_sameReading same⟩
  · cases answered with
    | now writer answers _ _ =>
        simp only [Producing.resume, writer]
        obtain rfl | ⟨rfl, _⟩ := answers
        · exact .runs writer taken
        · exact .runs writer refused
    | later writer _ _ =>
        simp only [Producing.resume, writer]
        exact .waits writer taken refused
  · rw [same.reader, same.ended] at alive
    have track := h.onTrack alive
    rw [producer] at track
    cases track with
    | runs ready' on delivers all =>
    cases ready.symm.trans ready'
    have put := Conduit.called_put s.conduit c on
    cases answered with
    | now writer answers connected closed =>
        -- Nothing is refused at once to a writing end that has not hung up.
        obtain rfl := answers.resolve_right fun off => by simp [on] at off
        have connected := connected on
        simp only [Producing.resume, writer]
        cases delivers with
        | calls other delivers _ =>
            refine .runs writer (connected.trans (by simp [other])) delivers ?_
            rw [put, List.append_assoc, all]
        | closes _ last _ =>
            rw [last]
            exact .closed writer connected (closed rfl rfl) (put.trans all)
    | later writer _ connected =>
        simp only [Producing.resume, writer]
        cases delivers with
        | calls other delivers _ =>
            refine .waits writer (connected.trans (by simp [other])) delivers ?_
            rw [put, List.append_assoc, all]
        | closes _ last _ => exact .closes writer connected last (put.trans all)

theorem leaves (h : Sound own whole worker s) {result : Except Halt Unit}
    (producer : s.producer = .runs (.returns result))
    (step : s.conduit.step .dropWriter = some conduit) :
    Sound own whole worker { s with conduit, producer := .left result } := by
  have same := Conduit.sameReading_of_writes .drop step
  obtain ⟨w, last, ready, ends⟩ := h.ready_of_runs producer
  have conduits := h.conduit.step step
  rw [Conduit.step_dropWriter ready] at step
  cases step
  refine ⟨conduits, .left rfl ends, fun alive => ?_, h.attends.of_sameReading same⟩
  have track := h.onTrack alive
  rw [producer] at track
  cases track with
  | runs _ _ delivers _ =>
      cases delivers with
      | fails bad => exact .left rfl fun good => by simp [bad] at good
  | closed _ _ done all => exact .left rfl fun _ => ⟨done, all⟩

theorem sends (h : Sound own whole worker s) {next : Except IoError Nat → Producer}
    (producer : s.producer = .waits next) (step : s.conduit.step .send = some conduit) :
    Sound own whole worker { s with conduit, producer := .resume conduit next } := by
  have same := Conduit.sameReading_of_writes .send step
  obtain ⟨chunk, count, w, sending, taken, refused⟩ := h.sending_of_waits producer
  have answered := Conduit.send_answered sending step
  refine ⟨h.conduit.step step, ?_, fun alive => ?_, h.attends.of_sameReading same⟩
  · obtain ⟨_, writer⟩ | ⟨_, writer, _⟩ := answered
    · simp only [Producing.resume, writer]
      exact .runs writer refused
    · simp only [Producing.resume, writer]
      exact .runs writer taken
  · rw [same.reader, same.ended] at alive
    obtain ⟨gone, writer⟩ | ⟨_, writer, put, closed⟩ := answered
    · -- The end has not been read while a chunk is on its way.
      have ended := alive.resolve_left (absurd gone)
      have hungUp := (h.conduit.conserves.ended ended).1
      simp [Conduit.State.connected, sending] at hungUp
    · have track := h.onTrack alive
      rw [producer] at track
      simp only [Producing.resume, writer]
      cases track with
      | waits sending' on delivers all =>
          cases sending.symm.trans sending'
          exact .runs writer on delivers (put ▸ all)
      | closes sending' off last all =>
          cases sending.symm.trans sending'
          rw [last]
          exact .closed writer off (by simp [closed, off]) (put.trans all)

/-- A read goes on where the octets it comes back with, or the end, lead the transform. -/
theorem resumes (h : Sound own whole worker s) {a : Conduit.Action} (read : a.Reads)
    (step : s.conduit.step a = some conduit) {place : σ} {size : Conduit.Size} {next : Octets → σ}
    (does : worker.does place = .reads size next)
    (alone : Alone worker place s.conduit.got s.conduit.ended s.sink)
    (alive : s.conduit.reader ≠ .dropped) (resumed : Conduit.Resumed s.conduit size conduit) :
    Sound own whole worker { s with conduit, worker := .resume conduit next } := by
  have same := Conduit.sameWriting_of_reads read step
  refine ⟨h.conduit.step step, h.expects.of_sameWriting same,
    fun _ => (h.onTrack (.inl alive)).of_sameWriting same, ?_⟩
  cases resumed with
  | waits reader got ended =>
      simp only [Working.resume, reader]
      refine .waits reader does ?_
      rw [got, ended]
      exact alone
  | gives reader some fits got before ended =>
      simp only [Working.resume, reader]
      refine .runs reader ?_
      rw [got, ended]
      exact .reads (before ▸ alone) does some fits
  | ends reader got ended =>
      simp only [Working.resume, reader]
      refine .runs reader ?_
      rw [got, ended]
      exact .ends alone does

theorem reads (h : Sound own whole worker s) {place : σ} {size : Conduit.Size} {next : Octets → σ}
    (runs : s.worker = .runs place) (does : worker.does place = .reads size next)
    (step : s.conduit.step (.read size) = some conduit) :
    Sound own whole worker { s with conduit, worker := .resume conduit next } := by
  obtain ⟨r, last, ready, alone⟩ := h.ready_of_running runs
  exact h.resumes (.read size) step does alone (by simp [ready])
    (h.conduit.conserves.read_resumed step)

theorem receives (h : Sound own whole worker s) {next : Octets → σ} (waits : s.worker = .waits next)
    (step : s.conduit.step .receive = some conduit) :
    Sound own whole worker { s with conduit, worker := .resume conduit next } := by
  obtain ⟨r, size, place, receiving, does, alone⟩ := h.receiving_of_waiting waits
  exact h.resumes .receive step does alone (by simp [receiving])
    (h.conduit.conserves.receive_resumed receiving step)

/-- Letting go of the reading end leaves it to the transform's last state how it ends. -/
theorem drops (h : Sound own whole worker s) {place : σ} (runs : s.worker = .runs place)
    (step : s.conduit.step .dropReader = some conduit) {working : Working σ}
    (attends : conduit.reader = .dropped → Alone worker place conduit.got conduit.ended s.sink →
      Attends worker conduit s.sink working) :
    Sound own whole worker { s with conduit, worker := working } := by
  have same := Conduit.sameWriting_of_reads .drop step
  obtain ⟨r, last, ready, alone⟩ := h.ready_of_running runs
  have conduits := h.conduit.step step
  rw [Conduit.step_dropReader ready] at step
  cases step
  exact ⟨conduits, h.expects.of_sameWriting same,
    fun _ => (h.onTrack (.inl (by simp [ready]))).of_sameWriting same, attends rfl alone⟩

/-- Steps between the transform and its destination leave the conduit alone. -/
theorem puts (h : Sound own whole worker s) {working : Working σ} {sink : Octets}
    (attends : Attends worker s.conduit sink working) :
    Sound own whole worker { s with worker := working, sink } :=
  ⟨h.conduit, h.expects, h.onTrack, attends⟩

theorem step {s' : State σ} (h : Sound own whole worker s) (step : Steps worker s s') :
    Sound own whole worker s' := by
  cases step with
  | calls producer step => exact h.calls producer step
  | leaves producer step => exact h.leaves producer step
  | sends producer step => exact h.sends producer step
  | reads runs does step => exact h.reads runs does step
  | receives waits step => exact h.receives waits step
  | @returns place result conduit runs does step =>
      refine h.drops runs step fun dropped alone => ?_
      cases result with
      | ok _ => exact .flushes dropped does alone
      | error error => exact .failed dropped
  | panics runs does step => exact h.drops runs step fun dropped _ => .panicked dropped
  | writes runs does fits =>
      obtain ⟨r, last, ready, alone⟩ := h.ready_of_running runs
      exact h.puts (.runs ready (.writes alone does fits))
  | refused error runs does =>
      obtain ⟨r, last, ready, alone⟩ := h.ready_of_running runs
      exact h.puts (.runs ready (.refused error alone does))
  | flushes answer runs does =>
      obtain ⟨r, last, ready, alone⟩ := h.ready_of_running runs
      exact h.puts (.runs ready (.flushes answer alone does))
  | ends result flushes =>
      have attends := h.attends
      rw [flushes] at attends
      cases attends with
      | flushes dropped does alone =>
          refine h.puts ?_
          cases result with
          | ok _ => exact .returned dropped does alone
          | error error => exact .failed dropped

end Sound

theorem Reachable.sound {σ : Type} {own : Except Halt Unit} {whole : Octets} {p : Producer}
    {worker : Worker σ} {s : State σ} (h : Reachable p worker s) (delivers : Delivers own whole p) :
    Sound own whole worker s := by
  induction h with
  | start => exact start_sound delivers worker
  | step _ step ih => exact ih.step (steps_of_step step)

end UtilityCss.Piped
