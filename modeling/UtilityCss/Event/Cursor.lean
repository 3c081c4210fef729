import UtilityCss.Event.Parser

/-!
Events asked for one at a time. A step of the parser may read several events, which then wait until
each has been asked for. An error is the last that is handed out, and from then on, as from the end
of the source on, there is nothing more.
-/
namespace UtilityCss
open UtilityCss.Parser

structure Cursor where
  source : Text
  inline : Bool
  state : State
  waiting : List Event
  /-- The error of a source that is not cut into tokens. -/
  uncut : Option SyntaxError
  finished : Bool

namespace Cursor

def start (source : Text) (inline : Bool) : Cursor :=
  match Lexer.tokens source with
  | .ok tokens => ⟨source, inline, ⟨tokens, []⟩, [], none, false⟩
  | .error unread =>
    ⟨source, inline, ⟨[], []⟩, [], some (.before source unread .unterminatedString), false⟩

/-- The event that comes next and the cursor behind it, or nothing at the end of the source. -/
def advance (c : Cursor) : Except SyntaxError (Option (Event × Cursor)) :=
  match c.uncut, c.waiting with
  | some error, _ => .error error
  | none, event :: waiting => .ok (some (event, { c with waiting }))
  | none, [] =>
    match step c.inline c.state with
    | .done => .ok none
    | .stuck fault rest => .error (.before c.source (Token.source rest) fault)
    | .yield [] state => .error (.before c.source (Token.source state.rest) .emptySelector)
    | .yield (event :: waiting) state => .ok (some (event, { c with state, waiting }))

def next (c : Cursor) : Option (Except SyntaxError Event) × Cursor :=
  if c.finished then (none, c)
  else match c.advance with
    | .ok (some (event, behind)) => (some (.ok event), behind)
    | .ok none => (none, { c with finished := true })
    | .error error => (some (.error error), { c with finished := true })

/-- What is handed out when the cursor has been asked the given number of times before. -/
def answer (c : Cursor) : Nat → Option (Except SyntaxError Event)
  | 0 => c.next.1
  | n + 1 => c.next.2.answer n

end Cursor

end UtilityCss
