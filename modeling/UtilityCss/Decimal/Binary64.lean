import UtilityCss.Decimal.Positional

/-!
Floating-point numbers of 64 bits: a sign, eleven bits of exponent, 52 bits of fraction. A decimal
is read as the nearest of them, and of two as near as the one with the even fraction. A number is
written as the shortest decimal that reads back.
-/
namespace UtilityCss

structure Binary64 where
  bits : UInt64
  deriving DecidableEq, Repr

namespace Binary64

/-- One more than the greatest fraction. -/
def fractionLimit : Nat := Nat.pow 2 52

def exponentLimit : Nat := 2048

/-- One more than the greatest size. -/
def sizeLimit : Nat := Nat.pow 2 63

def exponentBits (x : Binary64) : Nat :=
  x.bits.toNat / fractionLimit % exponentLimit

def fractionBits (x : Binary64) : Nat :=
  x.bits.toNat % fractionLimit

def isNegative (x : Binary64) : Bool :=
  sizeLimit ≤ x.bits.toNat

def isFinite (x : Binary64) : Bool :=
  x.exponentBits + 1 != exponentLimit

def isNaN (x : Binary64) : Bool :=
  !x.isFinite && x.fractionBits != 0

def isZero (x : Binary64) : Bool :=
  x.exponentBits == 0 && x.fractionBits == 0

/-- A number of the given size, below zero where asked for. -/
def signed (negative : Bool) (size : Nat) : Binary64 :=
  ⟨.ofNat (size + if negative then sizeLimit else 0)⟩

/-- The size of infinity; that of any finite number is less. -/
def infinity : Nat := 2047 * fractionLimit

def nan : Nat := infinity + fractionLimit / 2

/-- The quotient to the nearest whole number; a half goes to the even neighbour. -/
def nearest (n d : Nat) : Nat :=
  let below := n / d
  let twice := 2 * (n % d)
  if twice < d || (twice == d && below % 2 == 0) then below else below + 1

/-- The nearest size to a positive ratio. The spacing is that of 53 significant bits, unless the
exponent has no room for that. -/
def sizeOfRatio (n d : Nat) : Nat :=
  let units (power : Int) : Nat × Nat :=
    (n * Nat.pow 2 (-power).toNat, d * Nat.pow 2 power.toNat)
  let guess : Int := (Nat.log2 n : Int) - Nat.log2 d - 52
  let fits := (units guess).2 * fractionLimit ≤ (units guess).1
  let power := max (-1074) (if fits then guess else guess - 1)
  min infinity ((power + 1074).toNat * fractionLimit + nearest (units power).1 (units power).2)

/-- Exponents far out of range are settled before any power is taken. -/
def sizeOfDecimal (d : Decimal) : Nat :=
  let top := d.exponent + (Decimal.digitText d.digits).length
  if d.digits = 0 || top < -400 then 0
  else if 400 < top then infinity
  else sizeOfRatio (d.digits * Nat.pow 10 d.exponent.toNat) (Nat.pow 10 (-d.exponent).toNat)

/-- The size of a finite number other than zero. -/
def fraction (x : Binary64) : BinaryFraction :=
  if x.exponentBits = 0 then ⟨x.fractionBits, -1074, false⟩
  else ⟨fractionLimit + x.fractionBits, (x.exponentBits : Int) - 1075,
    x.fractionBits == 0 && x.exponentBits != 1⟩

def sizeText (x : Binary64) : Text :=
  if !x.isFinite then ['i', 'n', 'f']
  else if x.isZero then ['0']
  else x.fraction.shortest.positional

/-- The text of a number; zero keeps its sign. -/
def text (x : Binary64) : Text :=
  if x.isNaN then ['N', 'a', 'N']
  else if x.isNegative then '-' :: x.sizeText
  else x.sizeText

/-- The text of a number, which has a point where the number is finite. -/
def pointedText (x : Binary64) : Text :=
  if x.isFinite && !x.text.contains '.' then x.text ++ ['.', '0'] else x.text

end Binary64

end UtilityCss
