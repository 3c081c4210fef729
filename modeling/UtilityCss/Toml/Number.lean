import UtilityCss.Toml.Quoted
import UtilityCss.Toml.Value

/-!
Integers and floating-point numbers. An underscore may stand between two digits. Decimal integers
have no needless zeros in front; other bases have no sign. Integers have 64 bits.
-/
namespace UtilityCss.Toml

open Reader

/-- Further digits, with single underscores in between. -/
def digitsFrom (accepts : Char → Bool) (found : Text) : Text → Text × Text
  | '_' :: c :: rest =>
    if accepts c then digitsFrom accepts (c :: found) rest else (found.reverse, '_' :: c :: rest)
  | c :: rest =>
    if accepts c then digitsFrom accepts (c :: found) rest else (found.reverse, c :: rest)
  | [] => (found.reverse, [])

def digits (accepts : Char → Bool) : Reader Text := do
  let first ← one accepts
  fun rest => some (digitsFrom accepts [first] rest)

/-- Whether a minus sign stands there. -/
def sign : Reader Bool := do
  match ← optional (one fun c => c == '+' || c == '-') with
  | some c => return c == '-'
  | none => return false

def wholePart : Reader Text :=
  (do mark '0'; return ['0']) <|> digits Char.isDigit

def decimalInteger : Reader Int := do
  let negative ← sign
  let size := (Decimal.ofDigitText (← wholePart) : Int)
  return if negative then -size else size

def inBase (mark : String) (base : Nat) : Reader Int := do
  word mark
  let found ← digits fun c => (hexValue? c).any (· < base)
  return (found.foldl (fun n c => base * n + (hexValue? c).getD 0) 0 : Nat)

def integer : Reader Value := do
  let n ← inBase "0x" 16 <|> inBase "0o" 8 <|> inBase "0b" 2 <|> decimalInteger
  if Decimal.fits64 n then return .integer n else failure

def isExponentMark (c : Char) : Bool :=
  c == 'e' || c == 'E'

def exponent : Reader Int := do
  let _ ← one isExponentMark
  let negative ← sign
  let size := (Decimal.ofDigitText (← digits Char.isDigit) : Int)
  return if negative then -size else size

/-- What follows the whole part: digits after a point, an exponent, or both. -/
def fractionAndExponent : Reader (Text × Int) :=
  (do
    mark '.'
    let places ← digits Char.isDigit
    return (places, (← optional exponent).getD 0)) <|>
  (do return ([], ← exponent))

def special : Reader Nat :=
  (do word "inf"; return Binary64.infinity) <|> (do word "nan"; return Binary64.nan)

def finiteSize : Reader Nat := do
  let whole ← wholePart
  let (places, power) ← fractionAndExponent
  return Binary64.sizeOfDecimal
    ⟨Decimal.ofDigitText (whole ++ places), power - (places.length : Int)⟩

/-- A number that is too large is refused, but one too far below zero becomes infinite. -/
def real : Reader Value := do
  let negative ← sign
  (do
    let size ← finiteSize
    if size = Binary64.infinity && !negative then failure
    else return .real (.signed negative size)) <|>
  (do return .real (.signed negative (← special)))

end UtilityCss.Toml
