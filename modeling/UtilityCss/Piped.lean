import UtilityCss.Conduit
import UtilityCss.Convert

/-!
A conversion whose output goes through a transform. The conversion writes into a conduit; beside it
a worker runs the transform, which reads from the other end and writes to the destination. The
worker lets go of its end as soon as the transform is over, so the conversion may find nobody to
write to. That is no error of its own when the transform has one to show for it.

The two take their steps as they like, and wait only for the conduit. How the destination answers is
not laid down.
-/
namespace UtilityCss.Piped
open UtilityCss.Convert

/-- What writes into a conduit. It goes on from the answers to its calls. -/
inductive Producer where
  | returns (result : Except Halt Unit)
  | calls (c : Conduit.Call) (next : Except IoError Nat → Producer)

namespace Producer

/-- Writes whose answers are of no account. -/
def leaving (result : Except Halt Unit) : List Octets → Producer
  | [] => .returns result
  | octets :: rest => .calls (.write octets) fun _ => leaving result rest

def flushing : Producer :=
  .calls .flush fun
    | .ok _ => .returns (.ok ())
    | .error refusal => .returns (fail (.io outputName refusal))

/-- Closes the conduit in the end, unless there was an error. -/
def closing : Producer → Producer
  | .returns (.ok ()) =>
    .calls .close fun
      | .ok _ => .returns (.ok ())
      | .error refusal => .returns (fail (.io workerName refusal))
  | .returns (.error halt) => .returns (.error halt)
  | .calls c next => .calls c fun answer => (next answer).closing

end Producer

/-- How the output of a conversion is cut into writes, as long as none is refused. A conversion that
ends early may still write what it holds, after the writes that were taken until then. -/
structure Delivery (settings : Settings) (inputs : List Input) where
  writes : List Octets
  parting : Nat → List Octets
  whole : ∀ output, run settings inputs none = .ok output →
    writes.flatten = Octets.ofText output.text

/-- The output in one write, as it is when all of it fits the buffer. -/
def Delivery.once (settings : Settings) (inputs : List Input) : Delivery settings inputs where
  writes :=
    match run settings inputs none with
    | .ok output => [.ofText output.text]
    | .error _ => []
  parting _ := []
  whole output ran := by rw [ran]; exact List.flatten_singleton

/-- How a conversion ends in front of a destination with so much room. -/
def outcome (settings : Settings) (inputs : List Input) (room : Option Room) : Except Halt Unit :=
  (run settings inputs room).map fun _ => ()

namespace Delivery
variable {settings : Settings} {inputs : List Input} (d : Delivery settings inputs)

/-- The conversion when so many writes of so many octets have been taken. -/
def producerFrom (count size : Nat) : List Octets → Producer
  | [] =>
    match outcome settings inputs none with
    | .ok () => .flushing
    | .error halt => .leaving (.error halt) (d.parting count)
  | octets :: rest =>
    .calls (.write octets) fun
      | .ok taken => producerFrom (count + 1) (size + taken) rest
      | .error refusal =>
        .leaving (outcome settings inputs (some ⟨size, refusal⟩)) (d.parting count)

def producer : Producer :=
  (d.producerFrom 0 0 d.writes).closing

end Delivery

/-- What a transform does next. -/
inductive Doing (σ : Type) where
  | reads (size : Conduit.Size) (next : Octets → σ)
  | writes (octets : Octets) (next : Except IoError Nat → σ)
  | flushes (next : Except IoError Unit → σ)
  | returns (result : Except IoError Unit)
  | panics

structure Worker (σ : Type) where
  start : σ
  does : σ → Doing σ

def writeZero : IoError :=
  ⟨.other, "failed to write whole buffer"⟩

/-- Where a transform stands that takes all of its input in before it puts anything out. -/
inductive Gathering where
  | reads (got : Octets)
  | writes (left : Octets)
  | leaves (result : Except IoError Unit)

/-- A transform of the whole input. How much it asks for at a time depends on what it has. -/
def Worker.gathering (f : Octets → Octets) (size : Octets → Conduit.Size) : Worker Gathering where
  start := .reads []
  does
    | .reads got =>
      .reads (size got) fun octets =>
        if octets.isEmpty then .writes (f got) else .reads (got ++ octets)
    | .writes [] => .flushes .leaves
    | .writes left =>
      .writes left fun
        | .ok 0 => .leaves (.error writeZero)
        | .ok count => .writes (left.drop count)
        | .error error => .leaves (.error error)
    | .leaves result => .returns result

/-- How a worker ends. -/
inductive Joined where
  | returned (result : Except IoError Unit)
  | panicked

def Joined.consumed : Joined → Except ConvertError Unit
  | .returned (.ok ()) => .ok ()
  | .returned (.error error) => .error (.postProcess error)
  | .panicked => .error (.internal workerName .workerPanicked)

def isBrokenPipe : ConvertError → Bool
  | .io _ error => error.kind = .brokenPipe
  | _ => false

/-- An error of the conversion goes first, unless all it says is that nobody reads. -/
def settle (produced : Except Halt Unit) (consumed : Except ConvertError Unit) :
    Except Halt Unit :=
  match produced, consumed with
  | .error (.error error), .error error' => fail (if isBrokenPipe error then error' else error)
  | .error halt, _ => .error halt
  | .ok (), .error error => fail error
  | .ok (), .ok () => .ok ()

inductive Producing where
  | runs (p : Producer)
  | waits (next : Except IoError Nat → Producer)
  | left (result : Except Halt Unit)

/-- Once the transform is over without an error, the destination is flushed. -/
inductive Working (σ : Type) where
  | runs (place : σ)
  | waits (next : Octets → σ)
  | flushes
  | ended (joined : Joined)

structure State (σ : Type) where
  conduit : Conduit.State
  producer : Producing
  worker : Working σ
  sink : Octets

inductive Action where
  | produce
  | send
  | work
  | receive
  /-- The destination answers to a write or a flush. -/
  | sink (answer : Except IoError Nat)

/-- A call of the writing end has come back, or waits for the queue. -/
def Producing.resume (conduit : Conduit.State) (next : Except IoError Nat → Producer) : Producing :=
  match conduit.writer with
  | .ready _ (some answer) => .runs (next answer)
  | _ => .waits next

def Working.resume {σ : Type} (conduit : Conduit.State) (next : Octets → σ) : Working σ :=
  match conduit.reader with
  | .ready _ (some octets) => .runs (next octets)
  | _ => .waits next

namespace State
variable {σ : Type}

def start (p : Producer) (worker : Worker σ) : State σ :=
  ⟨.start, .runs p, .runs worker.start, []⟩

/-- What the conversion with its transform comes to, when both are over. -/
def result? (s : State σ) : Option (Except Halt Unit) :=
  match s.producer, s.worker with
  | .left produced, .ended joined => some (settle produced joined.consumed)
  | _, _ => none

def produce (s : State σ) : Option (State σ) :=
  match s.producer with
  | .runs (.calls c next) =>
    (s.conduit.step (.call c)).map fun conduit =>
      { s with conduit, producer := .resume conduit next }
  | .runs (.returns result) =>
    (s.conduit.step .dropWriter).map fun conduit => { s with conduit, producer := .left result }
  | .waits _ | .left _ => none

def send (s : State σ) : Option (State σ) :=
  match s.producer with
  | .waits next =>
    (s.conduit.step .send).map fun conduit => { s with conduit, producer := .resume conduit next }
  | .runs _ | .left _ => none

def work (worker : Worker σ) (s : State σ) : Option (State σ) :=
  match s.worker with
  | .runs place =>
    match worker.does place with
    | .reads size next =>
      (s.conduit.step (.read size)).map fun conduit =>
        { s with conduit, worker := .resume conduit next }
    | .returns result =>
      let worker := if result.isOk then .flushes else .ended (.returned result)
      (s.conduit.step .dropReader).map fun conduit => { s with conduit, worker }
    | .panics =>
      (s.conduit.step .dropReader).map fun conduit => { s with conduit, worker := .ended .panicked }
    | .writes _ _ | .flushes _ => none
  | .waits _ | .flushes | .ended _ => none

def receive (s : State σ) : Option (State σ) :=
  match s.worker with
  | .waits next =>
    (s.conduit.step .receive).map fun conduit => { s with conduit, worker := .resume conduit next }
  | .runs _ | .flushes | .ended _ => none

/-- A destination takes no more than it is offered, and not always all of it. -/
def answer (worker : Worker σ) (s : State σ) (answer : Except IoError Nat) : Option (State σ) :=
  match s.worker with
  | .runs place =>
    match worker.does place with
    | .writes octets next =>
      match answer with
      | .ok count =>
        if count ≤ octets.length then
          some { s with worker := .runs (next (.ok count)), sink := s.sink ++ octets.take count }
        else none
      | .error error => some { s with worker := .runs (next (.error error)) }
    | .flushes next => some { s with worker := .runs (next (answer.map fun _ => ())) }
    | .reads _ _ | .returns _ | .panics => none
  | .flushes => some { s with worker := .ended (.returned (answer.map fun _ => ())) }
  | .waits _ | .ended _ => none

def step (worker : Worker σ) (s : State σ) : Action → Option (State σ)
  | .produce => s.produce
  | .send => s.send
  | .work => s.work worker
  | .receive => s.receive
  | .sink answer => s.answer worker answer

end State

/-- Where a producer and a worker can get to, in whatever order they go on. -/
inductive Reachable {σ : Type} (p : Producer) (worker : Worker σ) : State σ → Prop
  | start : Reachable p worker (.start p worker)
  | step {s a s'} : Reachable p worker s → s.step worker a = some s' → Reachable p worker s'

end UtilityCss.Piped
