import UtilityCss.Source

/-!
The output of a conversion: pieces are held back until a buffer of fixed size is full and go to the
destination whole. A destination may have room for a limited number of octets and refuses what
would exceed it.
-/
namespace UtilityCss

structure Room where
  octets : Nat
  refusal : IoError

/-- Pieces are newest first, sizes in octets. -/
structure Output where
  room : Option Room
  sent : List Text
  sentSize : Nat
  held : List Text
  heldSize : Nat

namespace Output

def capacity : Nat := 8192

def start (room : Option Room) : Output :=
  ⟨room, [], 0, [], 0⟩

def text (o : Output) : Text :=
  (o.held ++ o.sent).reverse.flatten

/-- Hands pieces to the destination in one go. -/
def send (o : Output) (pieces : List Text) (size : Nat) : Except IoError Output :=
  match o.room with
  | some room =>
    if room.octets < o.sentSize + size then .error room.refusal
    else .ok { o with sent := pieces ++ o.sent, sentSize := o.sentSize + size }
  | none => .ok { o with sent := pieces ++ o.sent, sentSize := o.sentSize + size }

def flush (o : Output) : Except IoError Output :=
  if o.heldSize = 0 then .ok o
  else do
    let o ← o.send o.held o.heldSize
    return { o with held := [], heldSize := 0 }

def hold (o : Output) (piece : Text) : Output :=
  { o with held := piece :: o.held, heldSize := o.heldSize + piece.size }

/-- A piece that leaves room in the buffer is held. Otherwise the buffer is flushed, unless the
piece just fills it, and a piece of the buffer's size or more is not held at all. -/
def write (o : Output) (piece : Text) : Except IoError Output :=
  if o.heldSize + piece.size < capacity then .ok (o.hold piece)
  else do
    let o ← if capacity < o.heldSize + piece.size then o.flush else .ok o
    if capacity ≤ piece.size then o.send [piece] piece.size else return o.hold piece

def writeAll (o : Output) (pieces : List Text) : Except IoError Output :=
  pieces.foldlM write o

end Output

end UtilityCss
