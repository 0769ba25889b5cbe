/-!
# Base64 text, safe in addresses and without padding

The encoding of RFC 4648, section 5: the alphabet of letters and digits with a dash and an
underscore for the last two numbers. Three bytes become four characters of six bits each, the
highest bits first. One or two bytes left at the end become two or three characters, the missing
bits being zero. The padding to a multiple of four, which that section lets a user leave out, is
left out.
-/

set_option autoImplicit false

namespace AssetPack.Text.Base64Url

/-- The character for a number below 64. -/
def digit (n : Nat) : Char :=
  if n < 26 then Char.ofNat ('A'.toNat + n)
  else if n < 52 then Char.ofNat ('a'.toNat + (n - 26))
  else if n < 62 then Char.ofNat ('0'.toNat + (n - 52))
  else if n = 62 then '-'
  else '_'

/-- The text for a byte string. -/
def encode : List UInt8 → List Char
  | [] => []
  | [a] =>
    let n := a.toNat * 16
    [digit (n / 64), digit (n % 64)]
  | [a, b] =>
    let n := (a.toNat * 256 + b.toNat) * 4
    [digit (n / 4096), digit (n / 64 % 64), digit (n % 64)]
  | a :: b :: c :: r =>
    let n := (a.toNat * 256 + b.toNat) * 256 + c.toNat
    digit (n / 262144) :: digit (n / 4096 % 64) :: digit (n / 64 % 64) :: digit (n % 64) :: encode r

/-- What holds of the alphabet holds of every character of the text. -/
theorem of_mem_encode {P : Char → Prop} (hP : ∀ n < 64, P (digit n)) {bytes : List UInt8} {c : Char}
    (hc : c ∈ encode bytes) : P c := by
  induction bytes using encode.induct with
  | case1 => cases hc
  | case2 a =>
    have ha := a.toNat_lt
    simp only [encode, List.mem_cons, List.not_mem_nil, or_false] at hc
    rcases hc with rfl | rfl <;> exact hP _ (by omega)
  | case3 a b =>
    have ha := a.toNat_lt
    have hb := b.toNat_lt
    simp only [encode, List.mem_cons, List.not_mem_nil, or_false] at hc
    rcases hc with rfl | rfl | rfl <;> exact hP _ (by omega)
  | case4 a b c r ih =>
    have ha := a.toNat_lt
    have hb := b.toNat_lt
    have hc' := c.toNat_lt
    simp only [encode, List.mem_cons] at hc
    rcases hc with rfl | rfl | rfl | rfl | hc
    · exact hP _ (by omega)
    · exact hP _ (by omega)
    · exact hP _ (by omega)
    · exact hP _ (by omega)
    · exact ih hc

end AssetPack.Text.Base64Url
