import UtilityCss.Proofs.Conduit.Lossless

/-!
What each of the two parties sees of a conduit. A call of the writing end is answered with what it
took, or told that nobody reads; one of the reading end comes back with octets or with the end. Each
party leaves the other one's end as it is.
-/
namespace UtilityCss.Conduit

/-- The writing end after a call, at once or when the chunk is taken. -/
def Course.writer : Course → Writer
  | .returns _ w | .sends _ _ w => w

namespace Writer

theorem sendBuffered_writer (w : Writer) (count : Nat) :
    (w.sendBuffered count).writer.connected = w.connected := by
  simp only [sendBuffered]
  split
  · rfl
  · split <;> rfl

theorem call_connected {w : Writer} (connected : w.connected = true) (c : Call) :
    (w.call c).writer.connected = decide (c ≠ .close) := by
  cases c with
  | write octets =>
      simp only [call, write, connected, if_true]
      split
      · exact sendBuffered_writer _ _
      · rfl
  | flush => exact (sendBuffered_writer w 0).trans connected
  | close =>
      simp only [call, close]
      split <;> rfl

end Writer

namespace State

/-- What the party at the reading end sees. -/
structure SameReading (s s' : State) : Prop where
  reader : s'.reader = s.reader
  got : s'.got = s.got
  ended : s'.ended = s.ended

/-- What the party at the writing end sees. -/
structure SameWriting (s s' : State) : Prop where
  writer : s'.writer = s.writer
  put : s'.put = s.put
  closed : s'.closed = s.closed

end State

inductive Action.Writes : Action → Prop
  | call (c) : Writes (.call c)
  | send : Writes .send
  | drop : Writes .dropWriter

inductive Action.Reads : Action → Prop
  | read (size) : Reads (.read size)
  | receive : Reads .receive
  | drop : Reads .dropReader

section Frame
variable {s s' : State} {a : Action}

theorem called_sameReading (s : State) (c : Call) (w : Writer) :
    s.SameReading (s.called c w) := by
  simp only [State.called]
  split <;> exact ⟨rfl, rfl, rfl⟩

theorem give_sameWriting (s : State) (queue : List Octets) (r : Reader) (size : Size) :
    s.SameWriting ({ s with queue }.give r size) := by
  simp only [State.give]
  split <;> exact ⟨rfl, rfl, rfl⟩

theorem sameReading_of_writes (writes : a.Writes) (step : s.step a = some s') :
    s.SameReading s' := by
  cases writes with
  | call c =>
      simp only [State.step] at step
      split at step <;> cases step
      exact called_sameReading s c _
  | send =>
      simp only [State.step, State.send] at step
      split at step
      · split at step
        · cases step
          exact ⟨rfl, rfl, rfl⟩
        all_goals
          split at step <;> cases step
          exact ⟨rfl, rfl, rfl⟩
      all_goals cases step
  | drop =>
      simp only [State.step] at step
      split at step <;> cases step
      exact ⟨rfl, rfl, rfl⟩

theorem sameWriting_of_reads (reads : a.Reads) (step : s.step a = some s') :
    s.SameWriting s' := by
  cases reads with
  | read size =>
      simp only [State.step] at step
      split at step <;> cases step
      exact give_sameWriting s s.queue _ size
  | receive =>
      simp only [State.step, State.receive] at step
      split at step
      · split at step
        · cases step
          exact give_sameWriting s _ _ _
        · split at step <;> cases step
          exact ⟨rfl, rfl, rfl⟩
      all_goals cases step
  | drop =>
      simp only [State.step] at step
      split at step <;> cases step
      exact ⟨rfl, rfl, rfl⟩

end Frame

/-- How a call of a writing end leaves the conduit: with an answer, or with a chunk to be taken. -/
inductive Answered (w : Writer) (c : Call) (s : State) : Prop
  | now {w' answer} (writer : s.writer = .ready w' (some answer))
      (answers : answer = .ok c.count ∨ answer = .error brokenPipe ∧ w.connected = false)
      (connected : w.connected = true → w'.connected = decide (c ≠ .close))
      (closed : c = .close → answer = .ok c.count → s.closed = true)
  | later {chunk w'} (writer : s.writer = .sending chunk c.count w') (before : w.connected = true)
      (connected : w'.connected = decide (c ≠ .close))

/-- How a call of the reading end leaves the conduit: waiting, with octets, or at the end. -/
inductive Resumed (s : State) (size : Size) (s' : State) : Prop
  | waits {r} (reader : s'.reader = .receiving r size) (got : s'.got = s.got)
      (ended : s'.ended = s.ended)
  | gives {r octets} (reader : s'.reader = .ready r (some octets)) (some : octets ≠ [])
      (fits : octets.length ≤ size) (got : s'.got = s.got ++ octets) (ended : s.ended = false)
      (ended' : s'.ended = false)
  | ends {r} (reader : s'.reader = .ready r (some [])) (got : s'.got = s.got)
      (ended : s'.ended = true)

theorem called_put (s : State) (c : Call) {w : Writer} (connected : w.connected = true) :
    (s.called c w).put = s.put ++ c.octets := by
  simp only [State.called, Writer.accepted, connected, if_true]
  split <;> rfl

/-- A chunk is refused when nobody reads, and else the call that handed it over is answered. -/
theorem send_answered {s s' : State} {chunk : Octets} {count : Nat} {w : Writer}
    (sending : s.writer = .sending chunk count w) (step : s.step .send = some s') :
    s.reader = .dropped ∧ s'.writer = .ready w (some (.error brokenPipe)) ∨
      s.reader ≠ .dropped ∧ s'.writer = .ready w (some (.ok count)) ∧ s'.put = s.put ∧
        s'.closed = (s.closed || !w.connected) := by
  simp only [State.step, State.send, sending] at step
  split at step
  next gone =>
    cases step
    exact .inl ⟨gone, rfl⟩
  all_goals
    split at step <;> cases step
    exact .inr ⟨by simp [*], rfl, rfl, rfl⟩

theorem send_dropped {s : State} {chunk : Octets} {count : Nat} {w : Writer}
    (sending : s.writer = .sending chunk count w) (dropped : s.reader = .dropped) :
    s.step .send = some { s with writer := .ready w (some (.error brokenPipe)) } := by
  simp only [State.step, State.send, sending, dropped]

theorem receive_dropped {s : State} {r : Reader} {size : Size} (dropped : s.writer = .dropped)
    (receiving : s.reader = .receiving r size) : ∃ s', s.step .receive = some s' := by
  obtain ⟨s', sent | received⟩ := @send_or_receive s (by simp [dropped]) (by simp [receiving])
    (by simp [receiving])
  · simp [State.step, State.send, dropped] at sent
  · exact ⟨s', received⟩

namespace Conserves
variable {s s' : State} (h : Conserves s)
include h

theorem called_answered {w : Writer} {last : Option (Except IoError Nat)}
    (ready : s.writer = .ready w last) (c : Call) : Answered w c (s.called c w) := by
  have carries := Writer.call_carries (h.quiet_ready ready) c
  have connected (before : w.connected = true) := Writer.call_connected before c
  simp only [State.called]
  cases course : w.call c with
  | returns answer w' =>
      rw [course] at carries connected
      refine .now rfl carries.2.2.2 connected ?_
      rintro rfl rfl
      simp [Except.isOk, Except.toBool]
  | sends chunk count w' =>
      rw [course] at carries connected
      obtain ⟨_, _, before, rfl⟩ := carries
      exact .later rfl before (connected before)

theorem give_resumed {queue : List Octets} {r : Reader} (size : Size)
    (alive : s.reader ≠ .dropped) (reading : s.got ++ r.unread ++ queue.flatten = s.sent) :
    Resumed s size ({ s with queue }.give r size) := by
  have after := h.give size alive reading
  simp only [State.give] at after ⊢
  split at after
  next left =>
    rw [if_pos left]
    have some := Reader.take_ne_nil left size
    have going : s.ended = false := by
      refine Bool.eq_false_iff.mpr fun ended => some ?_
      -- Whoever has come to the end has got all there is.
      have all : s.got ++ (r.take size).1 = s.sent := (after.ended ended).2
      rw [← (h.ended ended).2] at all
      exact List.append_right_eq_self.mp all
    have fits : (r.take size).1.length ≤ size := by
      simp only [Reader.take, List.length_take]
      omega
    exact .gives rfl some fits rfl going going
  next used =>
    rw [if_neg used]
    exact .waits rfl rfl rfl

theorem read_resumed {size : Size} (step : s.step (.read size) = some s') :
    Resumed s size s' := by
  simp only [State.step] at step
  split at step <;> cases step
  next r last ready =>
  have alive : s.reader ≠ .dropped := by simp [ready]
  exact h.give_resumed size alive (by simpa [State.unread, ready] using h.reading alive)

theorem receive_resumed {r : Reader} {size : Size} (receiving : s.reader = .receiving r size)
    (step : s.step .receive = some s') : Resumed s size s' := by
  have alive : s.reader ≠ .dropped := by simp [receiving]
  have reading := h.reading alive
  simp only [State.unread, receiving, h.receiving r size receiving, List.append_nil] at reading
  simp only [State.step, State.receive, receiving] at step
  split at step
  next chunk queue queued =>
    cases step
    exact h.give_resumed size alive (by simpa [Reader.unread, queued] using reading)
  next empty =>
    split at step <;> cases step
    exact .ends rfl rfl rfl

end Conserves
end UtilityCss.Conduit
