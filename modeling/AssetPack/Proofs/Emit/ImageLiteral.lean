import AssetPack.Emit.Images
import AssetPack.Proofs.Text.Base64Url

/-!
# Bytes as a literal

The bytes of an image are written as base64 text between two quotes. The text is in an alphabet of
which no character has an escape, so the rules for literals leave it as it is
(`contentLiteral_eq`), and the length of the literal is known from the number of bytes.

`writesBytes` adds what the text says of the bytes, in two ways: read as base64 it gives them back,
and is the only text that does; and the bits of its characters are their bits.
-/

set_option autoImplicit false

namespace AssetPack.Emit

open Text

/-- **Bytes are written as base64 text between quotes, and read back from it.** There always is a
literal, and it has no escapes. The text has the characters of the alphabet only, and no padding;
it is a third longer than the bytes, rounded up; the six bits of each character, one after the
other, are the eight bits of each byte, with less than six zeros behind; and it is the one text that
is read as these bytes. So different bytes have different literals. -/
theorem writesBytes (bytes : List UInt8) :
    Java.Literal.encode (Base64Url.encode bytes) = .ok (imageLiteral bytes) ∧
    imageLiteral bytes = '"' :: Base64Url.encode bytes ++ ['"'] ∧
    (∀ c ∈ Base64Url.encode bytes, ('A' ≤ c ∧ c ≤ 'Z') ∨ ('a' ≤ c ∧ c ≤ 'z') ∨
      ('0' ≤ c ∧ c ≤ '9') ∨ c = '-' ∨ c = '_') ∧
    '=' ∉ Base64Url.encode bytes ∧
    (Base64Url.encode bytes).length = (4 * bytes.length + 2) / 3 ∧
    (∃ values, (Base64Url.encode bytes).mapM Base64Url.digitValue? = some values ∧
      ∃ k < 6, values.flatMap (Base64Url.bits 6) =
        (bytes.flatMap fun b => Base64Url.bits 8 b.toNat) ++ List.replicate k false) ∧
    (∀ text, Base64Url.decode text = some bytes ↔ text = Base64Url.encode bytes) ∧
    ∀ bytes', imageLiteral bytes' = imageLiteral bytes → bytes' = bytes := by
  have hvalues : (Base64Url.encode bytes).mapM Base64Url.digitValue? =
      some (Base64Url.sextets bytes) :=
    Base64Url.mapM_digitValue?_eq_some.mpr ⟨Base64Url.encode_eq bytes, Base64Url.sextets_lt⟩
  refine ⟨contentLiteral_eq_ok bytes, imageLiteral_eq bytes, fun c hc => ?_, fun hpad => ?_,
    Base64Url.length_encode bytes, ⟨_, hvalues, Base64Url.bits_sextets bytes⟩,
    fun text => Base64Url.decode_eq_some_iff, fun bytes' h => ?_⟩
  · exact Base64Url.of_mem_encode (P := fun c => ('A' ≤ c ∧ c ≤ 'Z') ∨ ('a' ≤ c ∧ c ≤ 'z') ∨
      ('0' ≤ c ∧ c ≤ '9') ∨ c = '-' ∨ c = '_') (by decide) hc
  · exact Base64Url.of_mem_encode (P := (· ≠ '=')) (by decide) hpad rfl
  · rw [imageLiteral_eq, imageLiteral_eq] at h
    have htext : Base64Url.encode bytes' = Base64Url.encode bytes :=
      List.append_cancel_right (List.cons.inj h).2
    have hdecode := Base64Url.decode_encode bytes'
    rw [htext, Base64Url.decode_encode] at hdecode
    exact (Option.some.inj hdecode).symm

end AssetPack.Emit
