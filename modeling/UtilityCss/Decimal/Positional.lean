import UtilityCss.Decimal.Shortest
import UtilityCss.Text.Basic

/-!
Decimals written with a point in its place and never with an exponent. A whole number has no point.
-/
namespace UtilityCss.Decimal

def digitText (n : Nat) : Text :=
  Nat.toDigits 10 n

/-- The digits of a number, with zeros in front up to the given length. -/
def padded (length n : Nat) : Text :=
  List.replicate (length - (digitText n).length) '0' ++ digitText n

def positional (d : Decimal) : Text :=
  let places := (-d.exponent).toNat
  let digits := padded (places + 1) d.digits
  if d.exponent ≥ 0 then digits ++ List.replicate d.exponent.toNat '0'
  else digits.take (digits.length - places) ++ '.' :: digits.drop (digits.length - places)

/-- The number that a run of decimal digits stands for. -/
def ofDigitText (digits : Text) : Nat :=
  digits.foldl (fun n c => 10 * n + (c.toNat - '0'.toNat)) 0

/-- Whether a number is one of the signed numbers of 64 bits. -/
def fits64 (n : Int) : Bool :=
  -9223372036854775808 ≤ n && n ≤ 9223372036854775807

end UtilityCss.Decimal
