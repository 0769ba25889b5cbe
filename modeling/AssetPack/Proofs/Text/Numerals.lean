import AssetPack.Text.Numeral
import Mathlib.Algebra.Group.Nat.Defs

/-!
# Reading numerals back

`digits` writes numbers in three places that have nothing else in common: escapes of the target
language (octal and hexadecimal, of a fixed width), escapes of quoted text (hexadecimal, as short
as can be) and digests (two digits a byte). Whoever reads one of these has to know where the
numeral ends and which number it is. The first is `length_digits` or, where the width is open,
`ne_of_mem_digits`: no digit is a mark. The second is `numberOf?_digits`, and that a numeral
determines its number (`digits_injective`) is read off it.
-/

set_option autoImplicit false

namespace AssetPack.Text

/-- The value of a digit of a base up to 16, in either case. -/
def digitValue? (base : Nat) (c : Char) : Option Nat :=
  let value? :=
    if '0' ≤ c ∧ c ≤ '9' then some (c.toNat - '0'.toNat)
    else if 'a' ≤ c ∧ c ≤ 'f' then some (c.toNat - 'a'.toNat + 10)
    else if 'A' ≤ c ∧ c ≤ 'F' then some (c.toNat - 'A'.toNat + 10)
    else none
  value?.filter (· < base)

/-- The number that digits of a base spell. -/
def numberOf? (base : Nat) (s : List Char) : Option Nat :=
  s.foldlM (fun n c => (digitValue? base c).map (n * base + ·)) 0

/-! ## Digits -/

theorem digitValue?_digitChar {base d : Nat} (hd : d < base) (hbase : base ≤ 16) :
    digitValue? base (Nat.digitChar d) = some d := by
  have key : ∀ d < 16, digitValue? 16 (Nat.digitChar d) = some d := by decide
  have h := key d (by omega)
  simp only [digitValue?, Option.filter_eq_some_iff] at h ⊢
  exact ⟨h.1, by simpa using hd⟩

/-- The digits of a number, by what they are written for. -/
theorem exists_digitChar_of_mem_toDigits {base n : Nat} (hbase : 1 < base) {c : Char}
    (hc : c ∈ Nat.toDigits base n) : ∃ d < base, c = Nat.digitChar d := by
  induction n using Nat.strongRecOn with
  | ind n ih =>
    rw [Nat.toDigits_eq_if hbase] at hc
    split at hc
    · rename_i hn
      exact ⟨n, hn, List.mem_singleton.mp hc⟩
    · rename_i hn
      rcases List.mem_append.mp hc with hc | hc
      · exact ih (n / base) (Nat.div_lt_self (by omega) hbase) hc
      · exact ⟨n % base, Nat.mod_lt n (by omega), List.mem_singleton.mp hc⟩

theorem exists_digitChar_of_mem_digits {base width n : Nat} (hbase : 1 < base) {c : Char}
    (hc : c ∈ digits base width n) : ∃ d < base, c = Nat.digitChar d := by
  rw [digits, List.leftpad] at hc
  rcases List.mem_append.mp hc with hc | hc
  · exact ⟨0, by omega, (List.mem_replicate.mp hc).2⟩
  · exact exists_digitChar_of_mem_toDigits hbase hc

/-- What holds of the sixteen digits holds of every character of a numeral. -/
theorem of_mem_digits {P : Char → Prop} (hP : ∀ d < 16, P (Nat.digitChar d))
    {base width n : Nat} (hbase : 1 < base) (hle : base ≤ 16) {c : Char}
    (hc : c ∈ digits base width n) : P c := by
  obtain ⟨d, hd, rfl⟩ := exists_digitChar_of_mem_digits hbase hc
  exact hP d (by omega)

/-! ## Whole numerals -/

theorem numberOf?_toDigits {base : Nat} (hbase : 1 < base) (hle : base ≤ 16) (n : Nat) :
    numberOf? base (Nat.toDigits base n) = some n := by
  induction n using Nat.strongRecOn with
  | ind n ih =>
    rw [Nat.toDigits_eq_if hbase]
    split
    · rename_i hn
      simp [numberOf?, digitValue?_digitChar hn hle]
    · rename_i hn
      have hlast := digitValue?_digitChar (Nat.mod_lt n (by omega)) hle
      have hfront := ih (n / base) (Nat.div_lt_self (by omega) hbase)
      rw [numberOf?] at hfront ⊢
      rw [List.foldlM_append, hfront]
      simp [hlast, Nat.div_add_mod']

/-- A numeral is read as the number it was written for, whatever its width. -/
theorem numberOf?_digits {base : Nat} (hbase : 1 < base) (hle : base ≤ 16) (width n : Nat) :
    numberOf? base (digits base width n) = some n := by
  have hzero : digitValue? base '0' = some 0 := digitValue?_digitChar (d := 0) (by omega) hle
  have hpad : ∀ k, numberOf? base (List.replicate k '0' ++ Nat.toDigits base n) = some n := by
    intro k
    induction k with
    | zero => exact numberOf?_toDigits hbase hle n
    | succ k ih =>
      rw [numberOf?] at ih ⊢
      rw [List.replicate_succ, List.cons_append, List.foldlM_cons, hzero]
      simpa using ih
  exact hpad _

theorem digits_injective {base : Nat} (hbase : 1 < base) (hle : base ≤ 16) {width m n : Nat}
    (h : digits base width m = digits base width n) : m = n := by
  have hm := numberOf?_digits hbase hle width m
  rw [h, numberOf?_digits hbase hle] at hm
  exact (Option.some.inj hm).symm

/-- A number that the width has room for takes no more room. -/
theorem length_digits {base width n : Nat} (hbase : 1 < base) (hwidth : 0 < width)
    (hn : n < base ^ width) : (digits base width n).length = width := by
  have hle := (Nat.length_toDigits_le_iff hbase hwidth).mpr hn
  simp only [digits, List.leftpad, List.length_append, List.length_replicate]
  omega

/-- A number as it is shown is its numeral in base ten. -/
theorem toList_toString (n : Nat) : (toString n).toList = digits 10 0 n := by
  rw [Nat.toString_eq_ofList_toDigits, String.toList_ofList]
  simp [digits, List.leftpad]

end AssetPack.Text
