import UtilityCss.Conduit
import UtilityCss.Proofs.Basic

/-!
A conduit loses nothing and keeps the order. Octets go from the calls of the writing end through its
buffer into the queue, and from the queue through the chunk of the reading end to the calls there.
In every state that two parties can bring a conduit to, what has passed one of these places and not
the next one is what is held between the two.
-/
namespace UtilityCss.Conduit

/-- A writing end that has hung up holds nothing back. -/
def Writer.Quiet (w : Writer) : Prop :=
  w.connected = false → w.buffer = []

/-- The number of octets that a call is answered with. -/
def Call.count (c : Call) : Nat :=
  c.octets.length

/-- A course in which what was gathered stays in the buffer or is handed over, all of it, and which
is answered with a count unless nobody can be reached. -/
def Course.Carries (connected : Bool) (gathered : Octets) (count : Nat) : Course → Prop
  | .returns answer w => w.buffer = gathered ∧ w.Quiet ∧ (w.connected = true → connected = true) ∧
      (answer = .ok count ∨ answer = .error brokenPipe ∧ connected = false)
  | .sends chunk count' w => chunk = gathered ∧ w.buffer = [] ∧ connected = true ∧ count' = count

namespace Writer

theorem sendBuffered_carries {w : Writer} (quiet : w.Quiet) (count : Nat) :
    (w.sendBuffered count).Carries w.connected w.buffer count := by
  rw [sendBuffered]
  split
  · exact ⟨rfl, quiet, id, .inl rfl⟩
  · split
    next connected => exact ⟨rfl, rfl, connected, rfl⟩
    next hungUp => exact ⟨rfl, quiet, id, .inr ⟨rfl, Bool.eq_false_iff.mpr hungUp⟩⟩

theorem write_carries {w : Writer} (quiet : w.Quiet) (octets : Octets) :
    (w.write octets).Carries w.connected (w.buffer ++ w.accepted (.write octets))
      octets.length := by
  simp only [write, accepted, Call.octets]
  split
  next connected =>
    have quiet' : Writer.Quiet { w with buffer := w.buffer ++ octets } :=
      fun hungUp => absurd (connected.symm.trans hungUp) (by decide)
    split
    · exact sendBuffered_carries quiet' octets.length
    · exact ⟨rfl, quiet', id, .inl rfl⟩
  next hungUp =>
    exact ⟨(List.append_nil _).symm, quiet, id, .inr ⟨rfl, Bool.eq_false_iff.mpr hungUp⟩⟩

theorem close_carries {w : Writer} (quiet : w.Quiet) :
    w.close.Carries w.connected w.buffer 0 := by
  obtain ⟨connected, buffer⟩ := w
  cases buffer with
  | nil => exact ⟨rfl, fun _ => rfl, nofun, .inl rfl⟩
  | cons b rest =>
      cases connected with
      | false => exact absurd (quiet rfl) (by simp)
      | true => exact ⟨rfl, rfl, rfl, rfl⟩

theorem call_carries {w : Writer} (quiet : w.Quiet) (c : Call) :
    (w.call c).Carries w.connected (w.buffer ++ w.accepted c) c.count := by
  cases c with
  | write octets => exact write_carries quiet octets
  | flush =>
      have nothing : w.buffer ++ w.accepted .flush = w.buffer := by simp [accepted, Call.octets]
      rw [nothing]
      exact sendBuffered_carries quiet 0
  | close =>
      have nothing : w.buffer ++ w.accepted .close = w.buffer := by simp [accepted, Call.octets]
      rw [nothing]
      exact close_carries quiet

theorem close_returns {w w' : Writer} {result : Except IoError Nat}
    (h : w.close = .returns result w') : w'.connected = false := by
  rw [close] at h
  split at h <;> cases h
  rfl

end Writer

namespace Reader

theorem take_append_unread (r : Reader) (size : Nat) :
    (r.take size).1 ++ (r.take size).2.unread = r.unread := by
  simp only [take, unread, ← List.drop_drop, List.take_append_drop]

theorem take_ne_nil {r : Reader} (left : r.pos < r.chunk.length) (size : Size) :
    (r.take size).1 ≠ [] := by
  have positive := size.property
  simp only [take, unread, ne_eq, ← List.length_eq_zero_iff, List.length_take, List.length_drop]
  omega

end Reader

/-- What holds between the places that octets go through. The writing end may lose octets when it is
dropped without a close, or once nobody reads. -/
structure Conserves (s : State) : Prop where
  read : s.got <+: s.sent
  reading : s.reader ≠ .dropped → s.got ++ s.unread ++ s.queue.flatten = s.sent
  written : s.sent <+: s.put
  writing : s.reader ≠ .dropped ∨ s.ended = true → s.writer ≠ .dropped ∨ s.closed = true →
    s.sent ++ s.unsent = s.put
  quiet : s.connected = false → s.unsent = []
  sending : ∀ chunk count w, s.writer = .sending chunk count w → w.buffer = []
  receiving : ∀ r size, s.reader = .receiving r size → r.unread = []
  hungUp : s.closed = true → s.connected = false
  ended : s.ended = true → s.connected = false ∧ s.got = s.sent
  last : ∀ r, s.reader = .ready r (some []) → s.ended = true

theorem start_conserves : Conserves .start where
  read := List.prefix_rfl
  reading _ := rfl
  written := List.prefix_rfl
  writing _ _ := rfl
  quiet _ := rfl
  sending := nofun
  receiving := nofun
  hungUp := nofun
  ended := nofun
  last := nofun

namespace Conserves
variable {s : State}

theorem quiet_ready (h : Conserves s) {w : Writer} {last : Option (Except IoError Nat)}
    (ready : s.writer = .ready w last) : w.Quiet := by
  intro hungUp
  have quiet := h.quiet
  simp only [State.connected, State.unsent, ready] at quiet
  exact quiet hungUp

theorem connected_ready {w : Writer} {last : Option (Except IoError Nat)}
    (ready : s.writer = .ready w last) : s.connected = w.connected := by
  simp only [State.connected, ready]

theorem called (h : Conserves s) {w : Writer} {last : Option (Except IoError Nat)}
    (ready : s.writer = .ready w last) (c : Call) : Conserves (s.called c w) := by
  have carries := Writer.call_carries (h.quiet_ready ready) c
  have connected := connected_ready ready
  have written : s.sent <+: s.put ++ w.accepted c := h.written.trans (List.prefix_append _ _)
  have writing (alive : s.reader ≠ .dropped ∨ s.ended = true) :
      s.sent ++ (w.buffer ++ w.accepted c) = s.put ++ w.accepted c := by
    have writing := h.writing alive (.inl (by simp [ready]))
    simp only [State.unsent, ready] at writing
    rw [← List.append_assoc, writing]
  cases course : w.call c with
  | returns result w' =>
      rw [course] at carries
      obtain ⟨buffer, quiet, hangs, _⟩ := carries
      have still (hungUp : s.connected = false) : w'.connected = false :=
        Bool.eq_false_iff.mpr fun on =>
          absurd (connected.trans (hangs on)) (Bool.eq_false_iff.mp hungUp)
      rw [← buffer] at writing
      simp only [State.called, course]
      refine { h with
        written, quiet, sending := nofun
        writing := fun alive _ => writing alive
        hungUp := fun closed => ?_
        ended := fun ended => ⟨still (h.ended ended).1, (h.ended ended).2⟩ }
      rcases Bool.or_eq_true_iff.mp closed with before | now
      · exact still (h.hungUp before)
      · simp only [Bool.and_eq_true, decide_eq_true_eq] at now
        rw [now.1] at course
        exact Writer.close_returns course
  | sends chunk count w' =>
      rw [course] at carries
      obtain ⟨rfl, buffer, on, _⟩ := carries
      have on : s.connected = true := connected.trans on
      simp only [State.called, course]
      exact { h with
        written, quiet := nofun
        writing := fun alive _ => by simpa [State.unsent, buffer] using writing alive
        sending := fun _ _ _ same => by cases same; exact buffer
        hungUp := fun closed => absurd (h.hungUp closed) (by simp [on])
        ended := fun ended => absurd (h.ended ended).1 (by simp [on]) }

/-- A read may go on with a chunk that has just left the queue. -/
theorem give (h : Conserves s) {queue : List Octets} {r : Reader} (size : Size)
    (alive : s.reader ≠ .dropped) (reading : s.got ++ r.unread ++ queue.flatten = s.sent) :
    Conserves ({ s with queue }.give r size) := by
  simp only [State.give]
  split
  next left =>
    have more := Reader.take_ne_nil left size
    rw [← r.take_append_unread size] at reading
    have read : s.got ++ (r.take size).1 <+: s.sent :=
      ⟨(r.take size).2.unread ++ queue.flatten, by rw [← reading]; simp⟩
    exact { h with
      read
      reading := fun _ => by simpa [State.unread] using reading
      writing := fun _ => h.writing (.inl alive)
      receiving := nofun
      ended := fun ended => by
        have whole : s.sent ++ (r.take size).1 <+: s.sent := (h.ended ended).2 ▸ read
        have nothing := (List.prefix_append s.sent _).eq_of_length_le whole.length_le
        exact absurd (List.self_eq_append_right.mp nothing) more
      last := fun _ same => absurd (Option.some.inj (ReaderEnd.ready.inj same).2) more }
  next used =>
    have unread : r.unread = [] := List.drop_eq_nil_of_le (Nat.le_of_not_lt used)
    exact { h with
      reading := fun _ => reading
      writing := fun _ => h.writing (.inl alive)
      receiving := fun _ _ same => by cases same; exact unread
      last := nofun }

theorem send (h : Conserves s) {s' : State} (step : s.send = some s') : Conserves s' := by
  simp only [State.send] at step
  split at step
  next chunk count w sending =>
    have buffer := h.sending chunk count w sending
    have on : s.connected ≠ false := by simp [State.connected, sending]
    have before : s.writer ≠ .dropped := by simp [sending]
    have taken (alive : s.reader ≠ .dropped) : Conserves { s with
        writer := .ready w (some (.ok count)), queue := s.queue ++ [chunk],
        sent := s.sent ++ chunk, closed := s.closed || !w.connected } := by
      have writing : s.sent ++ chunk = s.put := by
        simpa [State.unsent, sending, buffer] using h.writing (.inl alive) (.inl before)
      exact { h with
        read := h.read.trans (List.prefix_append _ _)
        reading := fun _ => by simp [← h.reading alive, State.unread]
        written := writing ▸ List.prefix_rfl
        writing := fun _ _ => by simpa [State.unsent, buffer] using writing
        quiet := fun _ => buffer
        sending := nofun
        hungUp := fun closed => by
          rcases Bool.or_eq_true_iff.mp closed with before | now
          · exact absurd (h.hungUp before) on
          · exact (Bool.not_eq_eq_eq_not ..).mp now
        ended := fun ended => absurd (h.ended ended).1 on }
    split at step
    next gone =>
      cases step
      exact { h with
        writing := fun alive _ => by
          rcases alive with alive | ended
          · exact absurd gone alive
          · exact absurd (h.ended ended).1 on
        quiet := fun _ => buffer
        sending := nofun
        hungUp := fun closed => absurd (h.hungUp closed) on
        ended := fun ended => absurd (h.ended ended).1 on }
    all_goals
      split at step <;> cases step
      exact taken (by simp [*])
  all_goals cases step

theorem receive (h : Conserves s) {s' : State} (step : s.receive = some s') : Conserves s' := by
  simp only [State.receive] at step
  split at step
  next r size receiving =>
    have alive : s.reader ≠ .dropped := by simp [receiving]
    have reading := h.reading alive
    simp only [State.unread, receiving, h.receiving r size receiving, List.append_nil] at reading
    split at step
    next chunk queue queued =>
      cases step
      exact h.give size alive (by simpa [Reader.unread, queued] using reading)
    next empty =>
      split at step <;> cases step
      next hungUp =>
      exact { h with
        reading := fun _ => by simpa [State.unread, h.receiving r size receiving] using reading
        writing := fun _ => h.writing (.inl alive)
        receiving := nofun
        ended := fun _ => ⟨by simpa [State.connected] using hungUp, by simpa [empty] using reading⟩
        last := fun _ _ => rfl }
  all_goals cases step

theorem step {s' : State} (h : Conserves s) {a : Action} (step : s.step a = some s') :
    Conserves s' := by
  cases a with
  | call c =>
      simp only [State.step] at step
      split at step <;> cases step
      next ready => exact h.called ready c
  | send => exact h.send step
  | dropWriter =>
      simp only [State.step] at step
      split at step <;> cases step
      next w last ready =>
      exact { h with
        writing := fun alive kept => by
          -- After a close there is nothing left in the buffer that goes with it.
          have closed := kept.resolve_left (absurd rfl)
          have writing := h.writing alive (.inr closed)
          rwa [h.quiet (h.hungUp closed)] at writing
        quiet := fun _ => rfl
        sending := nofun
        hungUp := fun _ => rfl
        ended := fun ended => ⟨rfl, (h.ended ended).2⟩ }
  | read size =>
      simp only [State.step] at step
      split at step <;> cases step
      next r last ready =>
      exact h.give size (by simp [ready]) (by
        simpa [State.unread, ready] using h.reading (by simp [ready]))
  | receive => exact h.receive step
  | dropReader =>
      simp only [State.step] at step
      split at step <;> cases step
      next r last ready =>
      exact { h with
        reading := fun alive => absurd rfl alive
        writing := fun _ => h.writing (.inl (by simp [ready]))
        receiving := nofun
        last := nofun }

end Conserves

theorem Reachable.conserves {s : State} (h : Reachable s) : Conserves s := by
  induction h with
  | start => exact start_conserves
  | step _ step ih => exact ih.step step

section Ready
variable {s : State} {w : Writer} {r : Reader} {answer : Option (Except IoError Nat)}
  {octets : Option Octets}

theorem step_call (ready : s.writer = .ready w answer) (c : Call) :
    s.step (.call c) = some (s.called c w) := by
  simp only [State.step, ready]

theorem step_dropWriter (ready : s.writer = .ready w answer) :
    s.step .dropWriter = some { s with writer := .dropped } := by
  simp only [State.step, ready]

theorem step_read (ready : s.reader = .ready r octets) (size : Size) :
    s.step (.read size) = some (s.give r size) := by
  simp only [State.step, ready]

theorem step_dropReader (ready : s.reader = .ready r octets) :
    s.step .dropReader = some { s with reader := .dropped, queue := [] } := by
  simp only [State.step, ready]

end Ready

/-- Ends that are both within a call, or gone, do not wait for each other. -/
theorem send_or_receive {s : State} (writing : ∀ w last, s.writer ≠ .ready w last)
    (reading : ∀ r last, s.reader ≠ .ready r last)
    (unfinished : s.writer ≠ .dropped ∨ s.reader ≠ .dropped) :
    ∃ s', s.step .send = some s' ∨ s.step .receive = some s' := by
  obtain ⟨writer, queue, reader, put, sent, got, closed, ended⟩ := s
  cases writer with
  | ready w last => exact absurd rfl (writing w last)
  | dropped =>
      cases reader with
      | ready r last => exact absurd rfl (reading r last)
      | dropped => exact absurd rfl (unfinished.resolve_left (absurd rfl))
      | receiving r size => cases queue <;> exact ⟨_, .inr rfl⟩
  | sending chunk count w =>
      cases reader with
      | ready r last => exact absurd rfl (reading r last)
      | dropped => exact ⟨_, .inl rfl⟩
      | receiving r size =>
          cases queue with
          | nil => exact ⟨_, .inl rfl⟩
          | cons chunk queue => exact ⟨_, .inr rfl⟩

/-- An end between two calls can be called, and ends that are not do not wait for each other. -/
theorem step_of_unfinished {s : State} (h : s.writer ≠ .dropped ∨ s.reader ≠ .dropped) :
    ∃ a s', s.step a = some s' := by
  by_cases writing : ∃ w last, s.writer = .ready w last
  · obtain ⟨w, last, ready⟩ := writing
    exact ⟨.call .flush, _, step_call ready .flush⟩
  by_cases reading : ∃ r last, s.reader = .ready r last
  · obtain ⟨r, last, ready⟩ := reading
    exact ⟨.dropReader, _, step_dropReader ready⟩
  obtain ⟨s', send | receive⟩ := send_or_receive (fun w last ready => writing ⟨w, last, ready⟩)
    (fun r last ready => reading ⟨r, last, ready⟩) h
  · exact ⟨_, s', send⟩
  · exact ⟨_, s', receive⟩

theorem Reachable.run {s s' : State} (h : Reachable s) {actions : List Action}
    (ran : actions.foldlM State.step s = some s') : Reachable s' :=
  foldlM_some (fun _ _ _ reached _ step => reached.step step) h ran

/-- Whatever two parties make of a conduit, what was written is all there and in order as long as
the reading end is there and the writing end has not been dropped. A read comes back without an
octet only when the other end has hung up and all that was sent has been read. That is all that was
written if a close came back without an error, and the beginning of it otherwise. Until both ends
are gone one of the parties can take a step; and when both are within a call, one goes on. -/
theorem conduit_lossless {s : State} (h : Reachable s) :
    (s.reader ≠ .dropped → s.writer ≠ .dropped →
      s.got ++ s.unread ++ s.queue.flatten ++ s.unsent = s.put) ∧
    (∀ r, s.reader = .ready r (some []) → s.ended = true) ∧
    (s.ended = true → s.connected = false ∧ s.got = s.sent ∧ (s.closed = true → s.got = s.put)) ∧
    s.got <+: s.put ∧
    (s.writer ≠ .dropped ∨ s.reader ≠ .dropped → (∃ a s', s.step a = some s') ∧
      ((∀ w last, s.writer ≠ .ready w last) → (∀ r last, s.reader ≠ .ready r last) →
        ∃ s', s.step .send = some s' ∨ s.step .receive = some s')) := by
  have conserves := h.conserves
  refine ⟨fun alive kept => ?_, conserves.last, fun ended => ?_,
    conserves.read.trans conserves.written, fun unfinished => ?_⟩
  · rw [conserves.reading alive]
    exact conserves.writing (.inl alive) (.inl kept)
  · obtain ⟨hungUp, whole⟩ := conserves.ended ended
    refine ⟨hungUp, whole, fun closed => ?_⟩
    have written := conserves.writing (.inr ended) (.inr closed)
    rw [conserves.quiet hungUp, List.append_nil] at written
    exact whole.trans written
  · exact ⟨step_of_unfinished unfinished, fun writing reading =>
      send_or_receive writing reading unfinished⟩

/-- Two writes, read as one octet and the rest. -/
theorem lossless_closed :
    let actions : List Action :=
      [.read ⟨1, by decide⟩, .call (.write [1, 2]), .call .flush, .send, .receive,
        .call (.write [3]), .call .close, .send, .dropWriter, .read ⟨5, by decide⟩,
        .read ⟨5, by decide⟩, .receive, .read ⟨5, by decide⟩, .receive]
    ∃ s, actions.foldlM State.step .start = some s ∧ s.put = [1, 2, 3] ∧ s.ended = true ∧
      s.closed = true ∧ s.got = s.put := by
  intro actions
  have whole {s : State} (ran : actions.foldlM State.step .start = some s) (ended : s.ended = true)
      (closed : s.closed = true) : s.got = s.put :=
    ((conduit_lossless (Reachable.start.run ran)).2.2.1 ended).2.2 closed
  exact ⟨_, rfl, rfl, rfl, rfl, whole rfl rfl rfl⟩

end UtilityCss.Conduit
