import UtilityCss.Text.Position

/-!
What makes a stylesheet unreadable, with the place where reading stopped.
-/
namespace UtilityCss

inductive SyntaxFault where
  | unterminatedString
  | unexpectedCloseBrace
  | missingBlock
  | emptySelector
  | missingColon
  | blockInDeclaration
  deriving DecidableEq, Repr

def SyntaxFault.message : SyntaxFault → String
  | unterminatedString => "unterminated string"
  | unexpectedCloseBrace => "unexpected '\x7d'"
  | missingBlock => "expected '\x7b' after selector"
  | emptySelector => "empty selector"
  | missingColon => "expected colon in declaration"
  | blockInDeclaration => "unexpected '\x7b' in declaration"

structure SyntaxError where
  fault : SyntaxFault
  position : Position
  deriving DecidableEq, Repr

namespace SyntaxError

/-- The error of a reader that stopped in front of the unread end of a source. -/
def before (source unread : Text) (fault : SyntaxFault) : SyntaxError :=
  ⟨fault, Position.ofOffset source (source.size - unread.size)⟩

def message (e : SyntaxError) : String :=
  e.position.describe e.fault.message

end SyntaxError

end UtilityCss
