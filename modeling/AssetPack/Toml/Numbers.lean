import AssetPack.Text.Numeral
import AssetPack.Text.Reader
import AssetPack.Toml.Value

/-!
# Numbers and points in time of a configuration document

Integers, floating-point numbers, dates and times of TOML 1.0. Digits may be parted by single
underscores. Integers fit 64 bits with a sign and have no zeros in front; those with a base carry no
sign. A floating-point number has a fraction, an exponent or both, and becomes the nearest number of
64 bits. Dates have to exist.

The format leaves open what becomes of a number that is too large to be finite, and how much of a
fraction of a second is kept. As in the library `toml`, a positive one is refused and a negative one
is infinite, and the fraction is cut behind its ninth digit.
-/

set_option autoImplicit false

namespace AssetPack.Toml

open Reader

/-! ## Digits -/

/-- Further digits, each with at most one underscore before it. -/
def moreDigits (isDigit : Char → Bool) : List Char → List Char × List Char
  | [] => ([], [])
  | c :: r =>
    if isDigit c then
      let (ds, rest) := moreDigits isDigit r
      (c :: ds, rest)
    else
      match c, r with
      | '_', d :: r =>
        if isDigit d then
          let (ds, rest) := moreDigits isDigit r
          (d :: ds, rest)
        else ([], '_' :: d :: r)
      | _, _ => ([], c :: r)

/-- Digits, the first of them without an underscore. -/
def digitRun (isDigit : Char → Bool) : Reader (List Char) := do
  let first ← nextIf isDigit
  let rest ← fun s => some (moreDigits isDigit s)
  return first :: rest

/-- The number that digits spell in a base. -/
def numberOf (base : Nat) (digits : List Char) : Nat :=
  digits.foldl (fun n c =>
    n * base + (if c.isDigit then c.toNat - '0'.toNat else c.toLower.toNat - 'a'.toNat + 10)) 0

/-- Whether a sign is there that says minus. -/
def sign : Reader Bool := do
  match ← optional (nextIf fun c => c == '+' || c == '-') with
  | some c => return c == '-'
  | none => return false

/-- A decimal integer: its sign and digits. Only zero begins with a zero. -/
def decimalInteger : Reader (Bool × List Char) := do
  let negative ← sign
  let first ← nextIf Char.isDigit
  if first = '0' then return (negative, ['0'])
  let rest ← fun s => some (moreDigits Char.isDigit s)
  return (negative, first :: rest)

/-! ## Integers -/

/-- An integer, if it fits 64 bits. -/
def fitting (n : Int) : Reader Value :=
  if -9223372036854775808 ≤ n ∧ n ≤ 9223372036854775807 then return .integer n else refuse

/-- An integer with a base in front. -/
def basedInteger (mark : Char) (base : Nat) (isDigit : Char → Bool) : Reader Value := do
  exactly ['0', mark]
  fitting (numberOf base (← digitRun isDigit))

/-- An integer in any form. -/
def integer : Reader Value :=
  basedInteger 'x' 16 (fun c => c.isDigit || ('a' ≤ c && c ≤ 'f') || ('A' ≤ c && c ≤ 'F'))
    <|> basedInteger 'o' 8 (fun c => '0' ≤ c && c ≤ '7')
    <|> basedInteger 'b' 2 (fun c => c == '0' || c == '1')
    <|> do
      let (negative, digits) ← decimalInteger
      let n : Int := numberOf 10 digits
      fitting (if negative then -n else n)

/-! ## Floating-point numbers -/

/-- An exponent. -/
def exponent : Reader Int := do
  let _ ← nextIf fun c => c == 'e' || c == 'E'
  let negative ← sign
  let n : Int := numberOf 10 (← digitRun Char.isDigit)
  return if negative then -n else n

/-- A fraction: its digits. -/
def fraction : Reader (List Char) := do
  exactly ['.']
  digitRun Char.isDigit

/-- A finite floating-point number. -/
def finiteFloat : Reader Value := do
  let (negative, whole) ← decimalInteger
  let part ← optional fraction
  let e ← match part with
    | none => exponent
    | some _ => (·.getD 0) <$> optional exponent
  let places := (part.getD []).length
  let f := Decimal.Binary64.ofDecimal negative (numberOf 10 (whole ++ part.getD [])) (e - places)
  if f = .infinite false then refuse else return .float f

/-- An infinite number, or none at all. -/
def specialFloat : Reader Value := do
  let negative ← sign
  (do exactly "inf".toList; return .float (.infinite negative)) <|>
    (do exactly "nan".toList; return .float .notANumber)

/-! ## Points in time -/

/-- A number of exactly `count` digits in the given range. -/
def fixedNumber (count low high : Nat) : Reader Nat := do
  let digits ← (List.range count).mapM fun _ => nextIf Char.isDigit
  let n := numberOf 10 digits
  if low ≤ n ∧ n ≤ high then return n else refuse

/-- The number of days of a month. -/
def daysIn (year month : Nat) : Nat :=
  let leap := year % 4 = 0 ∧ (year % 100 ≠ 0 ∨ year % 400 = 0)
  if month = 2 then (if leap then 29 else 28)
  else if month = 4 ∨ month = 6 ∨ month = 9 ∨ month = 11 then 30
  else 31

/-- A number with two places. -/
def twoPlaces (n : Nat) : List Char := Text.digits 10 2 n

/-- A date, in its normal text. -/
def date : Reader (List Char) := do
  let year ← fixedNumber 4 0 9999
  exactly ['-']
  let month ← fixedNumber 2 1 12
  exactly ['-']
  let day ← fixedNumber 2 1 (daysIn year month)
  return Text.digits 10 4 year ++ '-' :: twoPlaces month ++ '-' :: twoPlaces day

/-- The fraction of a second in its normal text: at most nine places, and no zeros at the end. -/
def normalFraction (digits : List Char) : List Char :=
  match ((digits.take 9).reverse.dropWhile (· == '0')).reverse with
  | [] => []
  | ds => '.' :: ds

/-- A time of day, in its normal text. -/
def clock : Reader (List Char) := do
  let hour ← fixedNumber 2 0 23
  exactly [':']
  let minute ← fixedNumber 2 0 59
  exactly [':']
  let second ← fixedNumber 2 0 60
  let part ← optional do
    exactly ['.']
    let first ← nextIf Char.isDigit
    return first :: (← takeWhile Char.isDigit)
  return twoPlaces hour ++ ':' :: twoPlaces minute ++ ':' :: twoPlaces second ++
    normalFraction (part.getD [])

/-- How far a time of day is from universal time, in its normal text. -/
def offset : Reader (List Char) :=
  (do let _ ← nextIf fun c => c == 'Z' || c == 'z'; return ['Z']) <|> do
    let mark ← nextIf fun c => c == '+' || c == '-'
    let hour ← fixedNumber 2 0 23
    exactly [':']
    let minute ← fixedNumber 2 0 59
    let mark := if hour = 0 ∧ minute = 0 then '+' else mark
    return mark :: twoPlaces hour ++ ':' :: twoPlaces minute

/-- A date with or without a time of day, or a time of day. -/
def pointInTime : Reader Value := do
  let text ← (do
      let day ← date
      let time ← optional do
        let _ ← nextIf fun c => c == 'T' || c == 't' || c == ' '
        let time ← clock
        return 'T' :: time ++ (← optional offset).getD []
      return day ++ time.getD []) <|> clock
  return .time (String.ofList text)

/-- Anything that begins with a digit or a sign. -/
def number : Reader Value := pointInTime <|> finiteFloat <|> specialFloat <|> integer

end AssetPack.Toml
