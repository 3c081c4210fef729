/-!
The shortest decimal that reads back as a given binary fraction. A binary fraction stands for every
real that rounds to it; of the decimals among those, the fewest digits win, and of several with as
many digits the nearest. Where two are as near, the greater one is taken.
-/
namespace UtilityCss

/-- A number written as some digits and a power of ten. -/
structure Decimal where
  digits : Nat
  exponent : Int
  deriving DecidableEq, Repr

/-- A positive number `significand * 2 ^ exponent` as a floating-point format holds it. -/
structure BinaryFraction where
  significand : Nat
  exponent : Int
  /-- Whether the next number below is only half as far away as the next one above. -/
  isLowest : Bool
  deriving DecidableEq, Repr

namespace BinaryFraction

/-- Numerator and denominator of `n` quarters of the last binary place. -/
def quarters (x : BinaryFraction) (n : Nat) : Nat × Nat :=
  let power := x.exponent - 2
  (n * Nat.pow 2 power.toNat, Nat.pow 2 (-power).toNat)

def low (x : BinaryFraction) : Nat × Nat :=
  x.quarters (4 * x.significand - if x.isLowest then 1 else 2)

def value (x : BinaryFraction) : Nat × Nat :=
  x.quarters (4 * x.significand)

def high (x : BinaryFraction) : Nat × Nat :=
  x.quarters (4 * x.significand + 2)

/-- Multiplies a ratio by a power of ten. -/
def scale (ratio : Nat × Nat) (power : Int) : Nat × Nat :=
  (ratio.1 * Nat.pow 10 power.toNat, ratio.2 * Nat.pow 10 (-power).toNat)

/-- Whether `n` steps of a grid, in units of which the ends are given, round to the number. Ends
do when the significand is even. -/
def roundsFrom (x : BinaryFraction) (low high : Nat × Nat) (n : Nat) : Bool :=
  if x.significand % 2 = 0 then low.1 ≤ n * low.2 && n * high.2 ≤ high.1
  else low.1 < n * low.2 && n * high.2 < high.1

/-- The nearest point of the grid of powers of ten that rounds to the number. -/
def onGrid? (x : BinaryFraction) (power : Int) : Option Nat :=
  let value := scale x.value (-power)
  let below := value.1 / value.2
  let fits := x.roundsFrom (scale x.low (-power)) (scale x.high (-power))
  let isNearBelow := 2 * (value.1 % value.2) < value.2
  if fits below && (isNearBelow || !fits (below + 1)) then some below
  else if fits (below + 1) then some (below + 1)
  else none

/-- The number of digits before the point, less the zeros right behind it. -/
def magnitude (x : BinaryFraction) : Int :=
  let (n, d) := x.value
  let guess : Int := ((Nat.log2 n : Int) - Nat.log2 d) * 30103 / 100000
  let reaches (power : Int) : Bool :=
    let ratio := scale (n, d) (-power)
    ratio.2 ≤ ratio.1
  if reaches (guess + 1) then guess + 2
  else if reaches guess then guess + 1
  else guess

/-- Seventeen digits are always enough. -/
def shortest (x : BinaryFraction) : Decimal :=
  let attempt (count : Nat) : Option Decimal :=
    let power := x.magnitude - count
    (x.onGrid? power).map fun n =>
      if n = Nat.pow 10 count then ⟨Nat.pow 10 (count - 1), power + 1⟩ else ⟨n, power⟩
  ((List.range 17).findSome? fun n => attempt (n + 1)).getD
    ⟨x.value.1 / x.value.2, 0⟩

end BinaryFraction

end UtilityCss
