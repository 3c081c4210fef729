import UtilityCss.Text.Octets

/-!
What is read: octets in non-empty chunks, which may break off with an error. Reading text wants all
of it, so an error comes before any complaint about the encoding.

A source is something opened for one later reading. An input may be the very file the output goes
to, so what a source holds can depend on the pieces the output has taken by the time it is read.
-/
namespace UtilityCss

inductive IoKind where
  | notFound
  | notADirectory
  | isADirectory
  | invalidData
  | brokenPipe
  | other
  deriving DecidableEq, Repr

structure IoError where
  kind : IoKind
  message : String
  deriving DecidableEq, Repr

def IoError.notUtf8 : IoError :=
  ⟨.invalidData, "stream did not contain valid UTF-8"⟩

structure Feed where
  chunks : List Octets
  failure : Option IoError

namespace Feed

def ofOctets (octets : Octets) : Feed :=
  ⟨if octets.isEmpty then [] else [octets], none⟩

def ofText (text : Text) : Feed :=
  ofOctets (.ofText text)

def broken (error : IoError) : Feed :=
  ⟨[], some error⟩

def octets (feed : Feed) : Octets :=
  feed.chunks.flatten

/-- All of it, unless it breaks off. -/
def contents (feed : Feed) : Except IoError Octets :=
  match feed.failure with
  | some error => .error error
  | none => .ok feed.octets

def text (feed : Feed) : Except IoError Text := do
  match (← feed.contents).text? with
  | some text => .ok text
  | none => .error .notUtf8

end Feed

/-- The pieces the output has taken are newest first. -/
def Source := List Text → Feed

namespace Source

def steady (feed : Feed) : Source :=
  fun _ => feed

/-- The file that the output itself goes to. -/
def output : Source :=
  fun sent => .ofText sent.reverse.flatten

def text (source : Source) (sent : List Text) : Except IoError Text :=
  (source sent).text

end Source

end UtilityCss
