/-!
# Numerals — digits in a base, padded to a width

Escapes and digests write numbers in base 8 and 16 with a fixed least width. `digits` is the
lower-case form; `upperDigits` the upper-case one.
-/

set_option autoImplicit false

namespace AssetPack.Text

/-- The digits of `n` in base `base` (at most 16), with zeros in front up to `width`. -/
def digits (base width n : Nat) : List Char :=
  (Nat.toDigits base n).leftpad width '0'

/-- The same with capital letters. -/
def upperDigits (base width n : Nat) : List Char :=
  (digits base width n).map Char.toUpper

end AssetPack.Text
