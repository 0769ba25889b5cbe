import AssetPack.Decimal.Binary64

/-!
# The shortest decimal of a floating-point number

Of all decimals that are rounded to a number, the one with the fewest digits, and of those the
nearest. The decimals that are rounded to a number fill an interval around it, whose ends belong
to it if the significand is even. A grid of decimals has a point in that interval only if one of
the number's two neighbours on the grid is in it, so two candidates a grid are enough.
-/

set_option autoImplicit false

namespace AssetPack.Decimal

/-- The decimals that are rounded to a number, in units of `2 ^ exponent / 4`: from `low` to
`high` with the number itself at `mid`, ends included if `closed`. -/
structure Interval where
  low : Nat
  mid : Nat
  high : Nat
  closed : Bool

/-- The interval of `significand * 2 ^ exponent`. Below a power of two the step is halved. -/
def Interval.of (significand : Nat) (exponent : Int) : Interval where
  low :=
    if significand = hiddenBit ∧ exponent ≠ minExponent then 4 * significand - 1
    else 4 * significand - 2
  mid := 4 * significand
  high := 4 * significand + 2
  closed := significand % 2 = 0

/-- `significand * 2 ^ exponent` in units of a grid of tens: the unit of an interval is
`num / den` of one grid step. -/
structure Grid where
  num : Nat
  den : Nat

/-- The grid of multiples of `10 ^ ten` for an interval in units of `2 ^ exponent / 4`. -/
def Grid.of (exponent ten : Int) : Grid :=
  let unit := scaleDown 2 1 4 (-exponent)
  let scaled := scaleDown 10 unit.1 unit.2 ten
  ⟨scaled.1, scaled.2⟩

/-- The multiple of the grid that stands for the number, if a neighbour of the number is in the
interval; the nearer one if both are. -/
def Grid.candidate? (g : Grid) (i : Interval) : Option Nat :=
  let inside (n : Nat) : Bool :=
    let at4 := n * g.den
    if i.closed then i.low * g.num ≤ at4 && at4 ≤ i.high * g.num
    else i.low * g.num < at4 && at4 < i.high * g.num
  let below := i.mid * g.num / g.den
  let fromBelow := i.mid * g.num - below * g.den
  let toAbove := (below + 1) * g.den - i.mid * g.num
  if inside below && (fromBelow ≤ toAbove || !inside (below + 1)) then some below
  else if inside (below + 1) then some (below + 1)
  else none

/-- The first grid, from coarse to fine, with a decimal for the number. -/
def shortestFrom (i : Interval) (exponent : Int) (ten : Int) : (grids : Nat) → Nat × Int
  | 0 => (0, 0)
  | grids + 1 =>
    match (Grid.of exponent ten).candidate? i with
    | some n => if n = 0 then shortestFrom i exponent (ten - 1) grids else (n, ten)
    | none => shortestFrom i exponent (ten - 1) grids

/-- Digits and power of ten of the shortest decimal of a positive finite number. -/
def shortest (significand : Nat) (exponent : Int) : Nat × Int :=
  let top : Int := ((Nat.log2 significand : Int) + exponent) * 30103 / 100000 + 2
  shortestFrom (.of significand exponent) exponent top 25

/-- `digits * 10 ^ ten` written out, without an exponent and with at least one digit on either
side of the point. -/
def positional (digits : Nat) (ten : Int) : List Char :=
  let ds := Nat.toDigits 10 digits
  if 0 ≤ ten then ds ++ List.replicate ten.toNat '0' ++ ['.', '0']
  else
    let places := (-ten).toNat
    let padded := ds.leftpad (places + 1) '0'
    padded.take (padded.length - places) ++ '.' :: padded.drop (padded.length - places)

/-- A number written out. -/
def Binary64.text : Binary64 → List Char
  | .notANumber => "NaN".toList
  | .infinite negative => (if negative then "-inf" else "inf").toList
  | .finite negative significand exponent =>
    let sign := if negative then ['-'] else []
    if significand = 0 then sign ++ "0.0".toList
    else
      let (digits, ten) := shortest significand exponent
      sign ++ positional digits ten

end AssetPack.Decimal
