/-!
# Binary floating-point numbers of 64 bits

A finite number is a sign, a significand below 2^53 and a power of two. `ofDecimal` rounds a
decimal to the nearest such number, and to the one with even significand where two are as near; a
decimal that lies at or beyond half a step above the largest number becomes infinite.
-/

set_option autoImplicit false

namespace AssetPack.Decimal

/-- A floating-point number. The finite ones are `significand * 2 ^ exponent`. -/
inductive Binary64 where
  | finite (negative : Bool) (significand : Nat) (exponent : Int)
  | infinite (negative : Bool)
  | notANumber
  deriving DecidableEq, Repr

/-- The least power of two that a significand may stand before. -/
def minExponent : Int := -1074

/-- The least significand of 53 bits, 2^52. -/
def hiddenBit : Nat := 0x10000000000000

/-- The quotient rounded to the nearest natural number, and to the even one of two. -/
def roundDiv (num den : Nat) : Nat :=
  let q := num / den
  let r := num % den
  if 2 * r < den then q
  else if den < 2 * r then q + 1
  else if q % 2 = 0 then q
  else q + 1

/-- Numerator and denominator of `num / den` divided by `base ^ e`. -/
def scaleDown (base num den : Nat) (e : Int) : Nat × Nat :=
  if 0 ≤ e then (num, den * base.pow e.toNat) else (num * base.pow (-e).toNat, den)

/-- The exponent at which a positive quotient has a significand of 53 bits, or the least one. -/
def exponentFor (num den : Nat) : Int :=
  let guess : Int := (Nat.log2 num : Int) - Nat.log2 den - 52
  let scaled := scaleDown 2 num den guess
  let e := if scaled.1 < scaled.2 * hiddenBit then guess - 1 else guess
  max e minExponent

/-- The number nearest to a positive quotient. -/
def ofQuotient (negative : Bool) (num den : Nat) : Binary64 :=
  let e := exponentFor num den
  let scaled := scaleDown 2 num den e
  let q := roundDiv scaled.1 scaled.2
  let (q, e) := if q = 2 * hiddenBit then (hiddenBit, e + 1) else (q, e)
  if e + 53 > 1024 then .infinite negative else .finite negative q e

/-- The number nearest to `digits * 10 ^ exponent`. Decimals far outside the range of exponents
are settled without computing their power of ten. -/
def Binary64.ofDecimal (negative : Bool) (digits : Nat) (exponent : Int) : Binary64 :=
  let magnitude : Int := (Nat.toDigits 10 digits).length + exponent
  if digits = 0 ∨ magnitude < -400 then .finite negative 0 minExponent
  else if magnitude > 400 then .infinite negative
  else if 0 ≤ exponent then ofQuotient negative (digits * Nat.pow 10 exponent.toNat) 1
  else ofQuotient negative digits (Nat.pow 10 (-exponent).toNat)

end AssetPack.Decimal
