import AssetPack.Text.Base64Url
import Mathlib.Tactic.Positivity
import Mathlib.Tactic.SplitIfs

/-!
# Base64 text is read back

`decode` is the reading of unpadded text in the alphabet for addresses. It is strict: a character
outside the alphabet, a single character left over and bits left over that are not zero are all
refused. What was encoded is read back to the last byte (`decode_encode`).

Encoding is done in two steps for this, bytes to numbers of six bits (`sextets`) and numbers to
characters, and decoding goes the same way back.
-/

set_option autoImplicit false

namespace AssetPack.Text.Base64Url

/-! ## Reading -/

/-- The number that a character of the alphabet stands for. -/
def digitValue? (c : Char) : Option Nat :=
  if 'A' ≤ c ∧ c ≤ 'Z' then some (c.toNat - 'A'.toNat)
  else if 'a' ≤ c ∧ c ≤ 'z' then some (c.toNat - 'a'.toNat + 26)
  else if '0' ≤ c ∧ c ≤ '9' then some (c.toNat - '0'.toNat + 52)
  else if c = '-' then some 62
  else if c = '_' then some 63
  else none

/-- The bytes of numbers of six bits, if they are whole bytes and nothing but zeros is left. -/
def bytes? : List Nat → Option (List UInt8)
  | [] => some []
  | [_] => none
  | [a, b] => if b % 16 = 0 then some [UInt8.ofNat (a * 4 + b / 16)] else none
  | [a, b, c] =>
    if c % 4 = 0 then some [UInt8.ofNat (a * 4 + b / 16), UInt8.ofNat (b % 16 * 16 + c / 4)]
    else none
  | a :: b :: c :: d :: r =>
    (bytes? r).map fun rest =>
      UInt8.ofNat (a * 4 + b / 16) :: UInt8.ofNat (b % 16 * 16 + c / 4) ::
        UInt8.ofNat (c % 4 * 64 + d) :: rest

/-- The bytes that a text encodes. -/
def decode (s : List Char) : Option (List UInt8) :=
  (s.mapM digitValue?).bind bytes?

/-! ## Numbers of six bits -/

/-- The numbers of six bits that bytes are made of, the last one filled up with zeros. -/
def sextets : List UInt8 → List Nat
  | [] => []
  | [a] => [a.toNat / 4, a.toNat % 4 * 16]
  | [a, b] => [a.toNat / 4, a.toNat % 4 * 16 + b.toNat / 16, b.toNat % 16 * 4]
  | a :: b :: c :: r =>
    a.toNat / 4 :: (a.toNat % 4 * 16 + b.toNat / 16) :: (b.toNat % 16 * 4 + c.toNat / 64) ::
      c.toNat % 64 :: sextets r

theorem encode_eq (bytes : List UInt8) : encode bytes = (sextets bytes).map digit := by
  induction bytes using sextets.induct with
  | case1 => rfl
  | case2 a =>
    have h₀ : a.toNat * 16 / 64 = a.toNat / 4 := by omega
    have h₁ : a.toNat * 16 % 64 = a.toNat % 4 * 16 := by omega
    simp only [encode, sextets, List.map_cons, List.map_nil, h₀, h₁]
  | case3 a b =>
    have hb := b.toNat_lt
    have h₀ : (a.toNat * 256 + b.toNat) * 4 / 4096 = a.toNat / 4 := by omega
    have h₁ : (a.toNat * 256 + b.toNat) * 4 / 64 % 64 = a.toNat % 4 * 16 + b.toNat / 16 := by omega
    have h₂ : (a.toNat * 256 + b.toNat) * 4 % 64 = b.toNat % 16 * 4 := by omega
    simp only [encode, sextets, List.map_cons, List.map_nil, h₀, h₁, h₂]
  | case4 a b c r ih =>
    have hb := b.toNat_lt
    have hc := c.toNat_lt
    have h₀ : ((a.toNat * 256 + b.toNat) * 256 + c.toNat) / 262144 = a.toNat / 4 := by omega
    have h₁ : ((a.toNat * 256 + b.toNat) * 256 + c.toNat) / 4096 % 64 =
        a.toNat % 4 * 16 + b.toNat / 16 := by omega
    have h₂ : ((a.toNat * 256 + b.toNat) * 256 + c.toNat) / 64 % 64 =
        b.toNat % 16 * 4 + c.toNat / 64 := by omega
    have h₃ : ((a.toNat * 256 + b.toNat) * 256 + c.toNat) % 64 = c.toNat % 64 := by omega
    simp only [encode, sextets, List.map_cons, ih, h₀, h₁, h₂, h₃]

theorem sextets_lt {bytes : List UInt8} : ∀ n ∈ sextets bytes, n < 64 := by
  induction bytes using sextets.induct with
  | case1 => simp [sextets]
  | case2 a =>
    have ha := a.toNat_lt
    simp only [sextets, List.forall_mem_cons]
    exact ⟨by omega, by omega, by simp⟩
  | case3 a b =>
    have ha := a.toNat_lt
    have hb := b.toNat_lt
    simp only [sextets, List.forall_mem_cons]
    exact ⟨by omega, by omega, by omega, by simp⟩
  | case4 a b c r ih =>
    have ha := a.toNat_lt
    have hb := b.toNat_lt
    have hc := c.toNat_lt
    simp only [sextets, List.forall_mem_cons]
    exact ⟨by omega, by omega, by omega, by omega, ih⟩

theorem ofNat_of_eq {b : UInt8} {n : Nat} (h : n = b.toNat) : UInt8.ofNat n = b := by
  rw [h]
  exact UInt8.ofNat_toNat

/-- What the bytes were cut into is put together again; the zeros are seen to be zeros. -/
theorem bytes?_sextets (bytes : List UInt8) : bytes? (sextets bytes) = some bytes := by
  induction bytes using sextets.induct with
  | case1 => rfl
  | case2 a =>
    rw [sextets, bytes?, if_pos (by omega), ofNat_of_eq (b := a) (by omega)]
  | case3 a b =>
    have hb := b.toNat_lt
    rw [sextets, bytes?, if_pos (by omega), ofNat_of_eq (b := a) (by omega),
      ofNat_of_eq (b := b) (by omega)]
  | case4 a b c r ih =>
    have hb := b.toNat_lt
    have hc := c.toNat_lt
    rw [sextets, bytes?, ih, Option.map_some, ofNat_of_eq (b := a) (by omega),
      ofNat_of_eq (b := b) (by omega), ofNat_of_eq (b := c) (by omega)]

/-! ## Whole texts -/

theorem digitValue?_digit {n : Nat} (hn : n < 64) : digitValue? (digit n) = some n := by
  have key : ∀ n < 64, digitValue? (digit n) = some n := by decide
  exact key n hn

theorem decode_encode (bytes : List UInt8) : decode (encode bytes) = some bytes := by
  have hdigits : ∀ ns : List Nat, (∀ n ∈ ns, n < 64) → (ns.map digit).mapM digitValue? = some ns := by
    intro ns
    induction ns with
    | nil => intro _; rfl
    | cons n ns ih =>
      intro h
      rw [List.forall_mem_cons] at h
      rw [List.map_cons, List.mapM_cons, digitValue?_digit h.1, ih h.2]
      rfl
  rw [decode, encode_eq, hdigits _ sextets_lt]
  exact bytes?_sextets bytes

theorem of_digitValue? {c : Char} {n : Nat} (h : digitValue? c = some n) :
    digit n = c ∧ n < 64 := by
  have hrange : ∀ {low high : Char}, low ≤ c ∧ c ≤ high →
      low.toNat ≤ c.toNat ∧ c.toNat ≤ high.toNat := fun h =>
    ⟨UInt32.le_iff_toNat_le.mp h.1, UInt32.le_iff_toNat_le.mp h.2⟩
  unfold digitValue? at h
  split_ifs at h with hupper hlower hdecimal hdash hscore <;> obtain rfl := Option.some.inj h
  · have hc := hrange hupper
    simp only [Char.reduceToNat] at hc ⊢
    refine ⟨?_, by omega⟩
    rw [digit, if_pos (by omega)]
    show Char.ofNat (65 + (c.toNat - 65)) = c
    rw [Nat.add_sub_of_le hc.1, Char.ofNat_toNat]
  · have hc := hrange hlower
    simp only [Char.reduceToNat] at hc ⊢
    refine ⟨?_, by omega⟩
    rw [digit, if_neg (by omega), if_pos (by omega)]
    show Char.ofNat (97 + (c.toNat - 97 + 26 - 26)) = c
    rw [Nat.add_sub_cancel, Nat.add_sub_of_le hc.1, Char.ofNat_toNat]
  · have hc := hrange hdecimal
    simp only [Char.reduceToNat] at hc ⊢
    refine ⟨?_, by omega⟩
    rw [digit, if_neg (by omega), if_neg (by omega), if_pos (by omega)]
    show Char.ofNat (48 + (c.toNat - 48 + 52 - 52)) = c
    rw [Nat.add_sub_cancel, Nat.add_sub_of_le hc.1, Char.ofNat_toNat]
  · exact ⟨hdash.symm, by decide⟩
  · exact ⟨hscore.symm, by decide⟩

theorem mapM_digitValue?_eq_some {s : List Char} {ns : List Nat} :
    s.mapM digitValue? = some ns ↔ s = ns.map digit ∧ ∀ n ∈ ns, n < 64 := by
  induction s generalizing ns with
  | nil => cases ns <;> simp
  | cons c s ih =>
    rw [List.mapM_cons]
    constructor
    · intro h
      obtain ⟨n, hn, hrest⟩ := Option.bind_eq_some_iff.mp h
      obtain ⟨ns', hns', hcons⟩ := Option.bind_eq_some_iff.mp hrest
      obtain rfl : n :: ns' = ns := Option.some.inj hcons
      obtain ⟨rfl, hlt⟩ := of_digitValue? hn
      obtain ⟨rfl, hall⟩ := ih.mp hns'
      exact ⟨rfl, List.forall_mem_cons.mpr ⟨hlt, hall⟩⟩
    · rintro ⟨hmap, hall⟩
      cases ns with
      | nil => cases hmap
      | cons n ns =>
        rw [List.forall_mem_cons] at hall
        obtain ⟨rfl, rfl⟩ := List.cons.inj hmap
        rw [digitValue?_digit hall.1, ih.mpr ⟨rfl, hall.2⟩]
        rfl

/-- Numbers that are whole bytes are those that the bytes are made of. -/
theorem eq_sextets_of_bytes? {ns : List Nat} {bytes : List UInt8} (h : bytes? ns = some bytes)
    (hlt : ∀ n ∈ ns, n < 64) : ns = sextets bytes := by
  have hbyte : ∀ n < 256, (UInt8.ofNat n).toNat = n := fun n hn => UInt8.toNat_ofNat_of_lt hn
  fun_induction bytes? ns generalizing bytes with
  | case1 => cases h; rfl
  | case2 => cases h
  | case3 a b hb =>
    cases h
    simp only [List.forall_mem_cons] at hlt
    rw [sextets, hbyte _ (by omega)]
    simp only [List.cons.injEq, and_true]
    omega
  | case4 => cases h
  | case5 a b c hc =>
    cases h
    simp only [List.forall_mem_cons] at hlt
    rw [sextets, hbyte _ (by omega), hbyte _ (by omega)]
    simp only [List.cons.injEq, and_true]
    omega
  | case6 => cases h
  | case7 a b c d r ih =>
    obtain ⟨rest, hrest, rfl⟩ := Option.map_eq_some_iff.mp h
    simp only [List.forall_mem_cons] at hlt
    rw [sextets, hbyte _ (by omega), hbyte _ (by omega), hbyte _ (by omega),
      ih hrest hlt.2.2.2.2]
    simp only [List.cons.injEq, and_true]
    omega

/-- **Nothing else is read as these bytes.** -/
theorem decode_eq_some_iff {s : List Char} {bytes : List UInt8} :
    decode s = some bytes ↔ s = encode bytes := by
  constructor
  · intro h
    obtain ⟨ns, hns, hbytes⟩ := Option.bind_eq_some_iff.mp h
    obtain ⟨rfl, hlt⟩ := mapM_digitValue?_eq_some.mp hns
    rw [encode_eq, eq_sextets_of_bytes? hbytes hlt]
  · rintro rfl
    exact decode_encode bytes

/-- Four characters for three bytes, and two or three for one or two at the end: a third more than
there are bytes, rounded up. -/
theorem length_encode (bytes : List UInt8) :
    (encode bytes).length = (4 * bytes.length + 2) / 3 := by
  rw [encode_eq, List.length_map]
  induction bytes using sextets.induct with
  | case1 => rfl
  | case2 a => simp [sextets]
  | case3 a b => simp [sextets]
  | case4 a b c r ih =>
    simp only [sextets, List.length_cons, ih]
    omega

/-! ## Bits -/

/-- The lowest bits of a number, the highest of them first. -/
def bits : Nat → Nat → List Bool
  | 0, _ => []
  | width + 1, n => bits width (n / 2) ++ [n % 2 == 1]

/-- A number put in front of another one of given width puts its bits in front. -/
theorem bits_append (v w a : Nat) {b : Nat} (hb : b < 2 ^ w) :
    bits (v + w) (a * 2 ^ w + b) = bits v a ++ bits w b := by
  induction w generalizing b with
  | zero =>
    obtain rfl : b = 0 := by simpa using hb
    simp [bits]
  | succ w ih =>
    have hpow : 2 ^ (w + 1) = 2 * 2 ^ w := Nat.pow_succ'
    have hhalf : (a * 2 ^ (w + 1) + b) / 2 = a * 2 ^ w + b / 2 := by
      rw [hpow, Nat.mul_left_comm, Nat.mul_add_div (by decide)]
    have hlast : (a * 2 ^ (w + 1) + b) % 2 = b % 2 := by
      rw [hpow, Nat.mul_left_comm, Nat.mul_add_mod]
    rw [← Nat.add_assoc, bits, bits, hhalf, hlast, ih (by omega), List.append_assoc]

theorem bits_split (v w n : Nat) :
    bits (v + w) n = bits v (n / 2 ^ w) ++ bits w (n % 2 ^ w) := by
  rw [← bits_append v w _ (Nat.mod_lt _ (by positivity)), Nat.div_add_mod']

theorem bits_zero (w : Nat) : bits w 0 = List.replicate w false := by
  induction w with
  | zero => rfl
  | succ w ih => rw [bits, Nat.zero_div, ih, List.replicate_succ']; rfl

theorem bits_mul_two_pow (v w a : Nat) :
    bits (v + w) (a * 2 ^ w) = bits v a ++ List.replicate w false := by
  have happend := bits_append v w a (b := 0) (by positivity)
  rwa [Nat.add_zero, bits_zero] at happend

/-- **Bits are regrouped and none is moved**: those of the characters, six each, are those of the
bytes, eight each, with less than six zeros behind. -/
theorem bits_sextets (bytes : List UInt8) : ∃ k < 6,
    (sextets bytes).flatMap (bits 6) =
      (bytes.flatMap fun b => bits 8 b.toNat) ++ List.replicate k false := by
  -- Where the first, the second and the third byte are cut, and the characters across the cuts
  -- or filled up at the end.
  have first : ∀ n, bits 8 n = bits 6 (n / 4) ++ bits 2 (n % 4) := bits_split 6 2
  have second : ∀ n, bits 8 n = bits 4 (n / 16) ++ bits 4 (n % 16) := bits_split 4 4
  have third : ∀ n, bits 8 n = bits 2 (n / 64) ++ bits 6 (n % 64) := bits_split 2 6
  have across : ∀ a b, b < 16 → bits 6 (a * 16 + b) = bits 2 a ++ bits 4 b := fun a b hb =>
    bits_append 2 4 a hb
  have across' : ∀ a b, b < 4 → bits 6 (a * 4 + b) = bits 4 a ++ bits 2 b := fun a b hb =>
    bits_append 4 2 a hb
  have filled : ∀ a, bits 6 (a * 16) = bits 2 a ++ List.replicate 4 false := bits_mul_two_pow 2 4
  have filled' : ∀ a, bits 6 (a * 4) = bits 4 a ++ List.replicate 2 false := bits_mul_two_pow 4 2
  induction bytes using sextets.induct with
  | case1 => exact ⟨0, by decide, rfl⟩
  | case2 a =>
    refine ⟨4, by decide, ?_⟩
    simp only [sextets, List.flatMap_cons, List.flatMap_nil, List.append_nil, first a.toNat, filled,
      List.append_assoc]
  | case3 a b =>
    refine ⟨2, by decide, ?_⟩
    have hb := b.toNat_lt
    simp only [sextets, List.flatMap_cons, List.flatMap_nil, List.append_nil, first a.toNat,
      second b.toNat, across _ (b.toNat / 16) (by omega), filled', List.append_assoc]
  | case4 a b c r ih =>
    obtain ⟨k, hk, ih⟩ := ih
    have hb := b.toNat_lt
    have hc := c.toNat_lt
    refine ⟨k, hk, ?_⟩
    simp only [sextets, List.flatMap_cons, ih, first a.toNat, second b.toNat, third c.toNat,
      across _ (b.toNat / 16) (by omega), across' _ (c.toNat / 64) (by omega), List.append_assoc]

end AssetPack.Text.Base64Url
