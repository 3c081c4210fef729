import UtilityCss.Decimal.Positional
import UtilityCss.Toml.Value
import UtilityCss.Toml.Reader

/-!
Dates and times, checked against the calendar and the clock and kept in one spelling: a capital T
between date and time, at most nine places of a second, no needless zeros, and a capital Z for no
offset unless it was written as a number.
-/
namespace UtilityCss.Toml

open Reader

/-- A number of so many digits, no less than `low` and no greater than `high`. -/
def field (length low high : Nat) : Reader Nat := do
  let mut found : Text := []
  for _ in List.range length do
    found := found ++ [← one Char.isDigit]
  let n := Decimal.ofDigitText found
  if low ≤ n && n ≤ high then return n else failure

def isLeapYear (year : Nat) : Bool :=
  year % 4 == 0 && (year % 100 != 0 || year % 400 == 0)

def daysOf (year month : Nat) : Nat :=
  if month = 2 then if isLeapYear year then 29 else 28
  else if month = 4 || month = 6 || month = 9 || month = 11 then 30
  else 31

def date : Reader Text := do
  let year ← field 4 0 9999
  mark '-'
  let month ← field 2 1 12
  mark '-'
  let day ← field 2 1 (daysOf year month)
  return Decimal.padded 4 year ++ '-' :: Decimal.padded 2 month ++ '-' :: Decimal.padded 2 day

def secondPlaces : Reader Text := do
  mark '.'
  let places := ((← someRun Char.isDigit).take 9).reverse.dropWhile (· == '0')
  return if places.isEmpty then [] else '.' :: places.reverse

def time : Reader Text := do
  let hour ← field 2 0 23
  mark ':'
  let minute ← field 2 0 59
  mark ':'
  let second ← field 2 0 60
  let places := (← optional secondPlaces).getD []
  return Decimal.padded 2 hour ++ ':' :: Decimal.padded 2 minute ++
    ':' :: Decimal.padded 2 second ++ places

/-- No offset at all goes forward. -/
def offset : Reader Text :=
  (do
    let _ ← one fun c => c == 'Z' || c == 'z'
    return ['Z']) <|>
  (do
    let direction ← one fun c => c == '+' || c == '-'
    let hours ← field 2 0 23
    mark ':'
    let minutes ← field 2 0 59
    let direction := if hours = 0 && minutes = 0 then '+' else direction
    return direction :: Decimal.padded 2 hours ++ ':' :: Decimal.padded 2 minutes)

def timeOfDay : Reader Text := do
  let _ ← one fun c => c == 'T' || c == 't' || c == ' '
  let clock ← time
  return 'T' :: clock ++ (← optional offset).getD []

def moment : Reader Value :=
  (do
    let day ← date
    return .moment (day ++ (← optional timeOfDay).getD [])) <|>
  (do return .moment (← time))

end UtilityCss.Toml
