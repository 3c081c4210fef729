import UtilityCss.Text.Basic
import UtilityCss.Text.Extending
import UtilityCss.Text.Unprintable

/-!
Text quoted for a message: between double quotes, with a backslash before a quote or a backslash,
short escapes for the common controls, and the code point in braces for whatever has no visible
form of its own.
-/
namespace UtilityCss.Text

def hexDigits (n : Nat) : Text :=
  Nat.toDigits 16 n

def quotedChar (c : Char) : Text :=
  match c with
  | '\x00' => ['\\', '0']
  | '\t' => ['\\', 't']
  | '\r' => ['\\', 'r']
  | '\n' => ['\\', 'n']
  | '\\' => ['\\', '\\']
  | '\x22' => ['\\', '\x22']
  | _ =>
    if ' ' ≤ c && c ≤ '~' then [c]
    else if isExtending c || isUnprintable c then
      ['\\', 'u', '\x7b'] ++ hexDigits c.toNat ++ ['\x7d']
    else [c]

def quoted (text : Text) : Text :=
  '\x22' :: text.flatMap quotedChar ++ ['\x22']

/-- A path is quoted with its single marks escaped as well. -/
def quotedPath (path : Text) : Text :=
  '\x22' :: path.flatMap (fun c => if c = '\x27' then ['\\', c] else quotedChar c) ++ ['\x22']

end UtilityCss.Text
