import UtilityCss.Source

/-!
The conduit from a conversion to the transform of its output. The writing end gathers octets and
hands them on in chunks, a bounded queue holds the chunks, and the reading end gives them out in
pieces of the size asked for. The queue takes a chunk unless it is full, so that the writing end
waits, or the reading end is gone, so that the chunk is refused; it runs dry for good when the
writing end has hung up.

The ends are called by two parties that take turns as they like. What they did so far is kept
beside the conduit.
-/
namespace UtilityCss.Conduit

/-- Chunks that the queue holds. -/
def capacity : Nat := 16

/-- Octets that are gathered before they are handed on. -/
def chunkSize : Nat := 8192

def brokenPipe : IoError :=
  ⟨.brokenPipe, "post-processor stopped reading"⟩

structure Writer where
  /-- Whether the queue may still be handed chunks. -/
  connected : Bool
  buffer : Octets
  deriving DecidableEq, Repr

structure Reader where
  chunk : Octets
  pos : Nat
  deriving DecidableEq, Repr

inductive Call where
  | write (octets : Octets)
  | flush
  | close
  deriving DecidableEq, Repr

def Call.octets : Call → Octets
  | .write octets => octets
  | .flush | .close => []

/-- How a call of the writing end goes on: it comes back at once with the number of octets it took,
or it hands over a chunk first. -/
inductive Course where
  | returns (result : Except IoError Nat) (w : Writer)
  | sends (chunk : Octets) (count : Nat) (w : Writer)

namespace Writer

def sendBuffered (w : Writer) (count : Nat) : Course :=
  if w.buffer.isEmpty then .returns (.ok count) w
  else if w.connected then .sends w.buffer count { w with buffer := [] }
  else .returns (.error brokenPipe) w

def write (w : Writer) (octets : Octets) : Course :=
  if w.connected then
    let w := { w with buffer := w.buffer ++ octets }
    if chunkSize ≤ w.buffer.length then w.sendBuffered octets.length
    else .returns (.ok octets.length) w
  else .returns (.error brokenPipe) w

def close (w : Writer) : Course :=
  match w.sendBuffered 0 with
  | .returns result w => .returns result { w with connected := false }
  | .sends chunk count w => .sends chunk count { w with connected := false }

def call (w : Writer) : Call → Course
  | .write octets => w.write octets
  | .flush => w.sendBuffered 0
  | .close => w.close

/-- The chunks that some writes hand on, if the queue takes them all. What is short of a chunk is
lost when the end is dropped. -/
def handsOn : Writer → List Octets → Octets
  | _, [] => []
  | w, octets :: rest =>
    match w.write octets with
    | .returns _ w => w.handsOn rest
    | .sends chunk _ w => chunk ++ w.handsOn rest

/-- The octets that a call adds to those that were written. -/
def accepted (w : Writer) (c : Call) : Octets :=
  if w.connected then c.octets else []

end Writer

namespace Reader

def unread (r : Reader) : Octets :=
  r.chunk.drop r.pos

def take (r : Reader) (size : Nat) : Octets × Reader :=
  let count := min size (r.chunk.length - r.pos)
  (r.unread.take count, { r with pos := r.pos + count })

end Reader

/-- Between two calls an end knows how the last one came out. -/
inductive WriterEnd where
  | ready (w : Writer) (last : Option (Except IoError Nat))
  | sending (chunk : Octets) (count : Nat) (w : Writer)
  | dropped

/-- The size of a buffer to read into. -/
abbrev Size := { size : Nat // 0 < size }

inductive ReaderEnd where
  | ready (r : Reader) (last : Option Octets)
  | receiving (r : Reader) (size : Size)
  | dropped

/-- A conduit in use, and what was done: the octets that were written to a writing end that had not
hung up, those of them that the queue took, and those that were read; whether a close came back
without an error, and a read without an octet. -/
structure State where
  writer : WriterEnd
  queue : List Octets
  reader : ReaderEnd
  put : Octets
  sent : Octets
  got : Octets
  closed : Bool
  ended : Bool

inductive Action where
  | call (c : Call)
  | send
  | dropWriter
  | read (size : Size)
  | receive
  | dropReader

namespace State

def start : State :=
  ⟨.ready ⟨true, []⟩ none, [], .ready ⟨[], 0⟩ none, [], [], [], false, false⟩

/-- While a chunk is being handed over, the writing end has not hung up, even in a close. -/
def connected (s : State) : Bool :=
  match s.writer with
  | .ready w _ => w.connected
  | .sending _ _ _ => true
  | .dropped => false

/-- The octets of the last chunk that are still to be given out. -/
def unread (s : State) : Octets :=
  match s.reader with
  | .ready r _ | .receiving r _ => r.unread
  | .dropped => []

/-- The octets that are gathered, or on their way into the queue. -/
def unsent (s : State) : Octets :=
  match s.writer with
  | .ready w _ => w.buffer
  | .sending chunk _ w => chunk ++ w.buffer
  | .dropped => []

def called (s : State) (c : Call) (w : Writer) : State :=
  let s := { s with put := s.put ++ w.accepted c }
  match w.call c with
  | .returns result w =>
    { s with
      writer := .ready w (some result)
      closed := s.closed || (c = .close && result.isOk) }
  | .sends chunk count w => { s with writer := .sending chunk count w }

/-- Goes on with a read. A chunk that is used up gives way to the next one. -/
def give (s : State) (r : Reader) (size : Size) : State :=
  if r.pos < r.chunk.length then
    let (octets, r) := r.take size
    { s with reader := .ready r (some octets), got := s.got ++ octets }
  else { s with reader := .receiving r size }

def send (s : State) : Option State :=
  match s.writer with
  | .sending chunk count w =>
    match s.reader with
    | .dropped => some { s with writer := .ready w (some (.error brokenPipe)) }
    | .ready _ _ | .receiving _ _ =>
      if s.queue.length < capacity then
        some { s with
          writer := .ready w (some (.ok count))
          queue := s.queue ++ [chunk]
          sent := s.sent ++ chunk
          closed := s.closed || !w.connected }
      else none
  | .ready _ _ | .dropped => none

def receive (s : State) : Option State :=
  match s.reader with
  | .receiving r size =>
    match s.queue with
    | chunk :: queue => some ({ s with queue }.give ⟨chunk, 0⟩ size)
    | [] =>
      if s.connected then none
      else some { s with reader := .ready r (some []), ended := true }
  | .ready _ _ | .dropped => none

def step (s : State) : Action → Option State
  | .call c =>
    match s.writer with
    | .ready w _ => some (s.called c w)
    | .sending _ _ _ | .dropped => none
  | .send => s.send
  | .dropWriter =>
    match s.writer with
    | .ready _ _ => some { s with writer := .dropped }
    | .sending _ _ _ | .dropped => none
  | .read size =>
    match s.reader with
    | .ready r _ => some (s.give r size)
    | .receiving _ _ | .dropped => none
  | .receive => s.receive
  | .dropReader =>
    match s.reader with
    | .ready _ _ => some { s with reader := .dropped, queue := [] }
    | .receiving _ _ | .dropped => none

end State

/-- What the two parties can make of a conduit. -/
inductive Reachable : State → Prop
  | start : Reachable .start
  | step {s a s'} : Reachable s → s.step a = some s' → Reachable s'

end UtilityCss.Conduit
