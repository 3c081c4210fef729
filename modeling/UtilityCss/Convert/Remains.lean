import UtilityCss.Convert
import UtilityCss.Text.Octets

/-!
What a conversion has put out when it ends early. Nothing that was written is taken back, so the
destination is left with all that was written up to the error, and what the buffer still held is
handed over at last. The pieces written tell what was handed over together, too.
-/
namespace UtilityCss

/-- Octets that are handed to the destination in one go, and what the buffer keeps of them if they
are refused. -/
structure Handing where
  octets : Octets
  kept : Octets

namespace Output

/-- All pieces that were written, oldest first. -/
def pieces (o : Output) : List Text :=
  (o.held ++ o.sent).reverse

/-- What a flush hands over. -/
def drains (o : Output) : List Handing :=
  if o.heldSize = 0 then []
  else
    let octets : Octets := .ofText o.held.reverse.flatten
    [⟨octets, octets⟩]

/-- What is handed over when a piece is written. -/
def hands (o : Output) (piece : Text) : List Handing :=
  if o.heldSize + piece.size < capacity then []
  else
    (if capacity < o.heldSize + piece.size then o.drains else []) ++
      if capacity ≤ piece.size then [⟨.ofText piece, []⟩] else []

/-- One more piece in front of a destination that takes everything, with what was handed over by
then. -/
def replayOne (state : Output × List Handing) (piece : Text) : Output × List Handing :=
  ((state.1.write piece).toOption.getD state.1, state.2 ++ state.1.hands piece)

def replay (pieces : List Text) : Output × List Handing :=
  pieces.foldl replayOne (.start none, [])

end Output

namespace Convert

/-- The state in front of the first step that fails, with the items from there on. -/
def stoppedAt {ε α β : Type} (step : α → β → Except ε α) : α → List β → α × List β
  | a, [] => (a, [])
  | a, item :: rest =>
    match step a item with
    | .ok a => stoppedAt step a rest
    | .error _ => (a, item :: rest)

/-- How far a walk gets. Nothing is written of an event that cannot be walked, unless it asks for a
section: that one may get part of the way. -/
def reach (settings : Settings) (read : SectionReader) : Nat → String →
    Option (String → Bool) → Reading → Progress → Progress
  | 0, _, _, _, p => p
  | budget + 1, source, checker, reading, p =>
    let walkSection (part : Section) (css : Text) : Progress → Except Halt Progress :=
      walk settings read budget part.sourceName (sectionChecker settings part) (read part css)
    let reachSection (part : Section) (css : Text) (p : Progress) : Except Halt Progress :=
      .ok (reach settings read budget part.sourceName (sectionChecker settings part) (read part css)
        p)
    let step := walkEvent settings source checker (expandSection settings source walkSection)
    match stoppedAt step (.start, p) reading.events with
    | ((_, p), .atRule name values :: _) =>
      if isDirective "@tailwind" name then
        (expandSection settings source reachSection values p).toOption.getD p
      else p
    | ((_, p), _) => p

def reachInput (settings : Settings) (read : SectionReader) (budget : Nat) (p : Progress)
    (input : Input) : Progress :=
  match input.source.text p.output.sent with
  | .error _ => p
  | .ok css => reach settings read budget input.name none (Reading.ofText css input.inline) p

/-- The output in front of its last flush, however the run ends. -/
def remains (settings : Settings) (inputs : List Input) : Output :=
  match stoppedAt (walkInput settings wholeSection walkBudget) ⟨.start none, none⟩ inputs with
  | (p, []) => p.output
  | (p, input :: _) => (reachInput settings wholeSection walkBudget p input).output

end Convert

end UtilityCss
