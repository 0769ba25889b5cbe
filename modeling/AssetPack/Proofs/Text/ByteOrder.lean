import Mathlib.Data.String.Basic
import AssetPack.Proofs.Text.Utf8Decode

/-!
# Texts stand in the order of their bytes

Names and suffixes are compared character by character here, and byte by byte where they are kept
on a disk or shown to a reader. `lt_iff_bytes` says that this is the same order. It is a property
of the encoding and not of bytes as such: the first byte of a longer sequence is greater, and
within one length the groups of six bits stand highest first.
-/

set_option autoImplicit false

namespace AssetPack.Text.Utf8

/-- The first bytes that differ are those of the first characters that differ. -/
theorem encodeChar_append_lt {c d : Char} (h : c < d) (s t : List UInt8) :
    String.utf8EncodeChar c ++ s < String.utf8EncodeChar d ++ t := by
  obtain ⟨v, hv⟩ : ∃ v, c.val.toNat = v := ⟨_, rfl⟩
  obtain ⟨w, hw⟩ : ∃ w, d.val.toNat = w := ⟨_, rfl⟩
  have hlt : v < w := by
    subst hv hw
    exact h
  have hmax : w < 0x110000 := by
    have hvalid := d.valid
    subst hw
    rcases hvalid with h | h <;> omega
  -- The groups of six bits one by one, so that they are compared from the highest down.
  have hdiv : ∀ n, n / 4096 = n / 64 / 64 ∧ n / 262144 = n / 64 / 64 / 64 := by
    intro n
    simp only [Nat.div_div_eq_div_mul]
    simp
  rw [utf8EncodeChar_eq hv, utf8EncodeChar_eq hw, (hdiv v).1, (hdiv v).2, (hdiv w).1, (hdiv w).2]
  split_ifs <;> simp [List.cons_lt_cons_iff, UInt8.lt_iff_toNat_lt, ← UInt8.toNat_inj] <;> omega

theorem encode_lt_of_lt {s t : List Char} (h : s < t) : encode s < encode t := by
  induction s generalizing t with
  | nil =>
    cases t with
    | nil => exact absurd h (List.not_lt_nil _)
    | cons d t =>
      obtain ⟨b, r, hb⟩ := List.exists_cons_of_ne_nil (l := String.utf8EncodeChar d)
        String.utf8EncodeChar_ne_nil
      rw [encode_cons, hb]
      exact List.nil_lt_cons _ _
  | cons c s ih =>
    cases t with
    | nil => exact absurd h (List.not_lt_nil _)
    | cons d t =>
      rw [encode_cons, encode_cons]
      rcases List.cons_lt_cons_iff.mp h with hlt | ⟨rfl, hlt⟩
      · exact encodeChar_append_lt hlt _ _
      · exact List.append_left_lt (ih hlt)

theorem lt_iff_bytes {a b : String} : a < b ↔ encode a.toList < encode b.toList := by
  constructor
  · intro h
    exact encode_lt_of_lt (String.lt_iff_toList_lt.mp h)
  · intro h
    rcases lt_trichotomy a b with hlt | rfl | hgt
    · exact hlt
    · exact absurd h (List.lt_irrefl _)
    · have hback := encode_lt_of_lt (String.lt_iff_toList_lt.mp hgt)
      exact absurd hback (List.lt_asymm h)

/-- A string is as long as its encoding. -/
theorem utf8ByteSize_eq (s : String) : s.utf8ByteSize = (encode s.toList).length := by
  obtain ⟨s, rfl⟩ : ∃ t, s = String.ofList t := ⟨s.toList, by simp⟩
  rw [String.utf8ByteSize, String.toByteArray_ofList, List.utf8Encode, List.size_toByteArray,
    String.toList_ofList]
  rfl

end AssetPack.Text.Utf8
