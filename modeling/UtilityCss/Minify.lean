import UtilityCss.Text.Octets

/-!
Dropping the semicolon in front of a closing brace, the one thing left to save in converted styles.
Strings and comments stay as they are, and so does an escaped character in a string.
-/
namespace UtilityCss.Minify

/-- What surrounds the next octet. -/
inductive Context where
  | plain
  | quoted (mark : UInt8)
  | comment
  deriving DecidableEq, Repr

def isMark (b : UInt8) : Bool :=
  b == 0x22 || b == 0x27

def startsWith (b : UInt8) (octets : Octets) : Bool :=
  octets.head? == some b

/-- Octets written so far are newest first. -/
def minifyFrom (found : Octets) : Context → Octets → Octets
  | _, [] => found.reverse
  | .comment, 0x2A :: 0x2F :: rest => minifyFrom (0x2F :: 0x2A :: found) .plain rest
  | .comment, b :: rest => minifyFrom (b :: found) .comment rest
  | .quoted mark, 0x5C :: b :: rest => minifyFrom (b :: 0x5C :: found) (.quoted mark) rest
  | .quoted mark, b :: rest =>
    minifyFrom (b :: found) (if b = mark then .plain else .quoted mark) rest
  | .plain, 0x2F :: 0x2A :: rest => minifyFrom (0x2A :: 0x2F :: found) .comment rest
  | .plain, b :: rest =>
    if isMark b then minifyFrom (b :: found) (.quoted b) rest
    else if b = 0x3B && startsWith 0x7D rest then minifyFrom found .plain rest
    else minifyFrom (b :: found) .plain rest

def minify (octets : Octets) : Octets :=
  minifyFrom [] .plain octets

end UtilityCss.Minify
