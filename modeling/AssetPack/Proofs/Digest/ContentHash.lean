import AssetPack.Digest.ContentHash
import AssetPack.Proofs.Text.Numerals
import AssetPack.Proofs.Text.PrefixCode
import Mathlib.Data.List.Nodup

/-!
# The text of a content hash

Whatever bytes were digested, the hash is shown in the same number of characters, and the digits
determine the digest. So a hash needs no quotes in a record, and hashes that are shown alike are
alike.
-/

set_option autoImplicit false

namespace AssetPack

open Text

namespace Digest.Sha384

theorem length_digest (message : List UInt8) : (digest message).length = 48 := by
  rw [digest, List.length_flatMap]
  rfl

theorem length_byteDigits (b : UInt8) : (digits 16 2 b.toNat).length = 2 :=
  length_digits (by decide) (by decide) b.toNat_lt

theorem prefixCode_byteDigits : PrefixCode (fun b : UInt8 => digits 16 2 b.toNat) id :=
  .of_length length_byteDigits fun _ _ h =>
    UInt8.toNat_inj.mp (digits_injective (by decide) (by decide) h)

theorem byteDigits_ne_nil (b : UInt8) : digits 16 2 b.toNat ≠ [] := by
  rw [← List.length_pos_iff, length_byteDigits]
  decide

theorem hex_injective {s t : List UInt8} (h : hex s = hex t) : s = t := by
  simpa using prefixCode_byteDigits.map_eq_of_flatMap_eq byteDigits_ne_nil h

theorem length_hex (bytes : List UInt8) : (hex bytes).length = 2 * bytes.length := by
  induction bytes with
  | nil => rfl
  | cons b bytes ih =>
    rw [hex, List.flatMap_cons, ← hex, List.length_append, ih, length_byteDigits, List.length_cons]
    omega

theorem of_mem_hex {P : Char → Prop} (hP : ∀ d < 16, P (Nat.digitChar d)) {bytes : List UInt8}
    {c : Char} (hc : c ∈ hex bytes) : P c := by
  obtain ⟨b, -, hb⟩ := List.mem_flatMap.mp hc
  exact of_mem_digits hP (by decide) (by decide) hb

/-- No two of the byte strings have the same digest. -/
def NoCollision (messages : List (List UInt8)) : Prop :=
  ∀ a ∈ messages, ∀ b ∈ messages, digest a = digest b → a = b

theorem noCollision_of_nodup {messages distinct : List (List UInt8)} (h : messages ⊆ distinct)
    (hdistinct : (distinct.map digest).Nodup) : NoCollision messages := fun _ ha _ hb hab =>
  List.inj_on_of_nodup_map hdistinct (h ha) (h hb) hab

end Digest.Sha384

namespace ContentHash

open Digest

theorem hex_injective {a b : ContentHash} (h : a.hex = b.hex) : a = b := by
  cases a
  cases b
  exact congrArg ContentHash.mk (Sha384.hex_injective h)

theorem bytes_eq_of_ofBytes_eq {digested : List (List UInt8)} (hno : Sha384.NoCollision digested)
    {a b : List UInt8} (ha : a ∈ digested) (hb : b ∈ digested) (h : ofBytes a = ofBytes b) :
    a = b :=
  hno a ha b hb (congrArg ContentHash.digest h)

theorem text_eq (h : ContentHash) : h.text = "SHA384:".toList ++ h.hex := rfl

theorem text_injective {a b : ContentHash} (h : a.text = b.text) : a = b :=
  hex_injective (List.append_cancel_left h)

theorem length_hex_ofBytes (bytes : List UInt8) : (ofBytes bytes).hex.length = 96 := by
  have hlength : (ofBytes bytes).digest.length = 48 := Sha384.length_digest bytes
  rw [hex, Sha384.length_hex, hlength]

/-- A hash is shown as the name of the digest with 96 digits. -/
theorem length_text_ofBytes (bytes : List UInt8) : (ofBytes bytes).text.length = 7 + 96 := by
  rw [text_eq, List.length_append, length_hex_ofBytes]
  rfl

/-- The text of a hash tells the hash and where it ends. -/
theorem prefixCode_text : PrefixCode (fun bytes => (ofBytes bytes).text) ofBytes :=
  .of_length length_text_ofBytes fun _ _ => text_injective

end ContentHash

end AssetPack
