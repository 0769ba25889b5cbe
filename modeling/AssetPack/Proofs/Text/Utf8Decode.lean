import Mathlib.Tactic.SplitIfs
import AssetPack.Proofs.Text.Utf8

/-!
# Bytes are read back as text

`encode` and `decode` are stated from opposite ends: the one cuts the number of a character into
groups of six bits, the other announces a sequence by its first byte and follows it from there.
They agree chunk by chunk. The encoding of a character is read as that character whatever bytes
follow (`first_of_encodeChar`), and a chunk that is a character is the encoding of it
(`encodeChar_of_first`); the narrowed ranges of the second byte are used in the second direction
only, where they are what makes the number one that needs a sequence of that length. From the two
follows, for whole byte strings, that decoding succeeds just on encodings (`decode_eq_ok`).

Both go by the length of the sequence, in numbers: masks are remainders (`toNat_and_mask`), and
the rest is division with remainder.
-/

set_option autoImplicit false

namespace AssetPack.Text.Utf8

/-! ## Sequences in numbers -/

theorem toNat_and_mask (b : UInt8) :
    (b &&& 0x1F).toNat = b.toNat % 32 ∧ (b &&& 0x0F).toNat = b.toNat % 16 ∧
      (b &&& 0x07).toNat = b.toNat % 8 ∧ (b &&& 0x3F).toNat = b.toNat % 64 := by
  simp only [UInt8.toNat_and]
  exact ⟨Nat.and_two_pow_sub_one_eq_mod _ 5, Nat.and_two_pow_sub_one_eq_mod _ 4,
    Nat.and_two_pow_sub_one_eq_mod _ 3, Nat.and_two_pow_sub_one_eq_mod _ 6⟩

theorem read_cons (bits taken more : Nat) (low high b : UInt8) (r : List UInt8) :
    Continuation.read bits low high taken more (b :: r) =
      if low.toNat ≤ b.toNat ∧ b.toNat ≤ high.toNat then
        match more with
        | 0 => .whole (bits * 64 + b.toNat % 64) (taken + 1)
        | more + 1 => Continuation.read (bits * 64 + b.toNat % 64) 0x80 0xBF (taken + 1) more r
      else .broken taken := by
  cases more <;>
    simp only [Continuation.read, Bool.and_eq_true, decide_eq_true_eq, UInt8.le_iff_toNat_le,
      (toNat_and_mask b).2.2.2]

theorem exists_cons_of_read {bits taken more code n : Nat} {low high : UInt8} {r : List UInt8}
    (h : Continuation.read bits low high taken (more + 1) r = .whole code n) :
    ∃ b rest, r = b :: rest ∧ low.toNat ≤ b.toNat ∧ b.toNat ≤ high.toNat ∧
      Continuation.read (bits * 64 + b.toNat % 64) 0x80 0xBF (taken + 1) more rest =
        .whole code n := by
  cases r with
  | nil => cases h
  | cons b rest =>
    rw [read_cons] at h
    split at h
    · rename_i hrange
      exact ⟨b, rest, rfl, hrange.1, hrange.2, h⟩
    · cases h

theorem exists_cons_of_read_zero {bits taken code n : Nat} {low high : UInt8} {r : List UInt8}
    (h : Continuation.read bits low high taken 0 r = .whole code n) :
    ∃ b rest, r = b :: rest ∧ low.toNat ≤ b.toNat ∧ b.toNat ≤ high.toNat ∧
      code = bits * 64 + b.toNat % 64 ∧ n = taken + 1 := by
  cases r with
  | nil => cases h
  | cons b rest =>
    rw [read_cons] at h
    split at h
    · rename_i hrange
      cases h
      exact ⟨b, rest, rfl, hrange.1, hrange.2, rfl, rfl⟩
    · cases h

theorem Lead.ofByte?_eq (b : UInt8) : Lead.ofByte? b =
    if b.toNat < 0xC2 then none
    else if b.toNat < 0xE0 then some ⟨b.toNat % 32, 0x80, 0xBF, 0⟩
    else if b.toNat < 0xF0 then
      some ⟨b.toNat % 16, if b.toNat = 0xE0 then 0xA0 else 0x80,
        if b.toNat = 0xED then 0x9F else 0xBF, 1⟩
    else if b.toNat < 0xF5 then
      some ⟨b.toNat % 8, if b.toNat = 0xF0 then 0x90 else 0x80,
        if b.toNat = 0xF4 then 0x8F else 0xBF, 2⟩
    else none := by
  simp only [Lead.ofByte?, UInt8.lt_iff_toNat_lt, beq_iff_eq, ← UInt8.toNat_inj, toNat_and_mask b]
  rfl

theorem Lead.of_ofByte? {b : UInt8} {lead : Lead} (h : Lead.ofByte? b = some lead) :
    0x80 ≤ lead.low.toNat ∧ lead.high.toNat ≤ 0xBF ∧
    ((lead.more = 0 ∧ 0xC2 ≤ b.toNat ∧ b.toNat < 0xE0 ∧ lead.bits = b.toNat % 32) ∨
      (lead.more = 1 ∧ 0xE0 ≤ b.toNat ∧ b.toNat < 0xF0 ∧ lead.bits = b.toNat % 16 ∧
        (b.toNat = 0xE0 → 0xA0 ≤ lead.low.toNat) ∧ (b.toNat = 0xED → lead.high.toNat ≤ 0x9F)) ∨
      (lead.more = 2 ∧ 0xF0 ≤ b.toNat ∧ b.toNat < 0xF5 ∧ lead.bits = b.toNat % 8 ∧
        (b.toNat = 0xF0 → 0x90 ≤ lead.low.toNat) ∧
        (b.toNat = 0xF4 → lead.high.toNat ≤ 0x8F))) := by
  rw [Lead.ofByte?_eq] at h
  split_ifs at h <;> cases h <;> simp <;> omega

theorem first_eq (b : UInt8) (r : List UInt8) : Chunk.first b r =
    if b.toNat < 0x80 then .char (Char.ofNat b.toNat) 1
    else
      match Lead.ofByte? b with
      | none => .malformed 1
      | some lead =>
        match Continuation.read lead.bits lead.low lead.high 0 lead.more r with
        | .whole code taken => .char (Char.ofNat code) (taken + 1)
        | .broken taken => .malformed (taken + 1)
        | .ended taken => .truncated (taken + 1) := by
  simp only [Chunk.first, UInt8.lt_iff_toNat_lt]
  rfl

theorem val_ofNat {n : Nat} (h : n < 0xD800 ∨ 0xDFFF < n ∧ n < 0x110000) :
    (Char.ofNat n).val.toNat = n := by
  rw [Char.ofNat, dif_pos h]
  rfl

theorem ofNat_eq_of_toNat {b : UInt8} {n : Nat} (h : b.toNat = n) : UInt8.ofNat n = b := by
  rw [← h]
  exact UInt8.ofNat_toNat

/-! ## One chunk -/

theorem exists_of_char_eq {o : Option Lead} {r : List UInt8} {c : Char} {n : Nat}
    (h : (match o with
      | none => .malformed 1
      | some lead =>
        match Continuation.read lead.bits lead.low lead.high 0 lead.more r with
        | .whole code taken => .char (Char.ofNat code) (taken + 1)
        | .broken taken => .malformed (taken + 1)
        | .ended taken => .truncated (taken + 1) : Chunk) = .char c n) :
    ∃ lead code taken, o = some lead ∧ c = Char.ofNat code ∧ n = taken + 1 ∧
      Continuation.read lead.bits lead.low lead.high 0 lead.more r = .whole code taken := by
  split at h
  · cases h
  · rename_i lead
    split at h
    · rename_i code taken hread
      cases h
      exact ⟨lead, code, taken, rfl, rfl, rfl, hread⟩
    · cases h
    · cases h

theorem utf8EncodeChar_eq {c : Char} {v : Nat} (h : c.val.toNat = v) :
    String.utf8EncodeChar c =
      if v ≤ 127 then [UInt8.ofNat v]
      else if v ≤ 2047 then [UInt8.ofNat (v / 64 % 32 + 192), UInt8.ofNat (v % 64 + 128)]
      else if v ≤ 65535 then
        [UInt8.ofNat (v / 4096 % 16 + 224), UInt8.ofNat (v / 64 % 64 + 128),
          UInt8.ofNat (v % 64 + 128)]
      else
        [UInt8.ofNat (v / 262144 % 8 + 240), UInt8.ofNat (v / 4096 % 64 + 128),
          UInt8.ofNat (v / 64 % 64 + 128), UInt8.ofNat (v % 64 + 128)] := by
  subst h
  rfl

/-- What is read as a character is the encoding of that character. -/
theorem encodeChar_of_first {b : UInt8} {r : List UInt8} {c : Char} {n : Nat}
    (h : Chunk.first b r = .char c n) :
    ∃ t rest, r = t ++ rest ∧ String.utf8EncodeChar c = b :: t ∧ n = t.length + 1 := by
  rw [first_eq] at h
  split at h
  case isTrue hb =>
    cases h
    refine ⟨[], r, rfl, ?_, rfl⟩
    rw [utf8EncodeChar_eq (val_ofNat (by omega)), if_pos (by omega), ofNat_eq_of_toNat rfl]
  case isFalse hb =>
    obtain ⟨lead, code, taken, hlead, rfl, rfl, hread⟩ := exists_of_char_eq h
    obtain ⟨hl, hh, ⟨hmore, hbits⟩ | ⟨hmore, hbits⟩ | ⟨hmore, hbits⟩⟩ := Lead.of_ofByte? hlead <;>
      rw [hmore] at hread
    · obtain ⟨b₁, r₁, rfl, hlow, hhigh, rfl, rfl⟩ := exists_cons_of_read_zero hread
      refine ⟨[b₁], r₁, rfl, ?_, rfl⟩
      rw [utf8EncodeChar_eq (val_ofNat (by omega)), if_neg (by omega), if_pos (by omega),
        ofNat_eq_of_toNat (b := b) (by omega), ofNat_eq_of_toNat (b := b₁) (by omega)]
    · -- The range of the second byte shuts out shorter sequences (behind E0) and surrogates (ED).
      obtain ⟨b₁, r₁, rfl, hlow, hhigh, hread⟩ := exists_cons_of_read hread
      obtain ⟨b₂, r₂, rfl, hlow₂, hhigh₂, rfl, rfl⟩ := exists_cons_of_read_zero hread
      simp only [UInt8.reduceToNat] at hlow₂ hhigh₂
      refine ⟨[b₁, b₂], r₂, rfl, ?_, rfl⟩
      rw [utf8EncodeChar_eq (val_ofNat (by omega)), if_neg (by omega), if_neg (by omega),
        if_pos (by omega), ofNat_eq_of_toNat (b := b) (by omega),
        ofNat_eq_of_toNat (b := b₁) (by omega), ofNat_eq_of_toNat (b := b₂) (by omega)]
    · -- Here it shuts out shorter sequences (F0) and numbers above U+10FFFF (F4).
      obtain ⟨b₁, r₁, rfl, hlow, hhigh, hread⟩ := exists_cons_of_read hread
      obtain ⟨b₂, r₂, rfl, hlow₂, hhigh₂, hread⟩ := exists_cons_of_read hread
      obtain ⟨b₃, r₃, rfl, hlow₃, hhigh₃, rfl, rfl⟩ := exists_cons_of_read_zero hread
      simp only [UInt8.reduceToNat] at hlow₂ hhigh₂ hlow₃ hhigh₃
      refine ⟨[b₁, b₂, b₃], r₃, rfl, ?_, rfl⟩
      rw [utf8EncodeChar_eq (val_ofNat (by omega)), if_neg (by omega), if_neg (by omega),
        if_neg (by omega), ofNat_eq_of_toNat (b := b) (by omega),
        ofNat_eq_of_toNat (b := b₁) (by omega), ofNat_eq_of_toNat (b := b₂) (by omega),
        ofNat_eq_of_toNat (b := b₃) (by omega)]

theorem exists_byte {n : Nat} (h : n < 256) : ∃ b : UInt8, UInt8.ofNat n = b ∧ b.toNat = n :=
  ⟨_, rfl, UInt8.toNat_ofNat_of_lt h⟩

/-- The encoding of a character is read as that character, whatever follows. -/
theorem first_of_encodeChar {c : Char} {b : UInt8} {t : List UInt8}
    (h : String.utf8EncodeChar c = b :: t) (rest : List UInt8) :
    Chunk.first b (t ++ rest) = .char c (t.length + 1) := by
  obtain ⟨v, hv⟩ : ∃ v, c.val.toNat = v := ⟨_, rfl⟩
  have hvalid : v < 0xD800 ∨ 0xDFFF < v ∧ v < 0x110000 := hv ▸ c.valid
  have hback : Char.ofNat v = c := hv ▸ Char.ofNat_toNat c
  rw [utf8EncodeChar_eq hv] at h
  split_ifs at h with h₁ h₂ h₃
  · obtain ⟨x, hx, hxv⟩ := exists_byte (n := v) (by omega)
    rw [hx] at h
    cases h
    rw [first_eq, if_pos (by omega), hxv, hback]
    rfl
  · obtain ⟨x, hx, hxv⟩ := exists_byte (n := v / 64 % 32 + 192) (by omega)
    obtain ⟨y, hy, hyv⟩ := exists_byte (n := v % 64 + 128) (by omega)
    rw [hx, hy] at h
    cases h
    rw [first_eq, if_neg (by omega), Lead.ofByte?_eq, if_neg (by omega), if_pos (by omega)]
    simp only [List.cons_append, List.nil_append, read_cons, UInt8.reduceToNat]
    rw [if_pos (by omega), show b.toNat % 32 * 64 + y.toNat % 64 = v by omega]
    simp only [hback]
    rfl
  · obtain ⟨x, hx, hxv⟩ := exists_byte (n := v / 4096 % 16 + 224) (by omega)
    obtain ⟨y, hy, hyv⟩ := exists_byte (n := v / 64 % 64 + 128) (by omega)
    obtain ⟨z, hz, hzv⟩ := exists_byte (n := v % 64 + 128) (by omega)
    rw [hx, hy, hz] at h
    cases h
    rw [first_eq, if_neg (by omega), Lead.ofByte?_eq, if_neg (by omega), if_neg (by omega),
      if_pos (by omega)]
    simp only [List.cons_append, List.nil_append, read_cons, UInt8.reduceToNat]
    rw [if_pos (by split_ifs <;> simp only [UInt8.reduceToNat] <;> omega), if_pos (by omega),
      show (b.toNat % 16 * 64 + y.toNat % 64) * 64 + z.toNat % 64 = v by omega]
    simp only [hback]
    rfl
  · obtain ⟨x, hx, hxv⟩ := exists_byte (n := v / 262144 % 8 + 240) (by omega)
    obtain ⟨y, hy, hyv⟩ := exists_byte (n := v / 4096 % 64 + 128) (by omega)
    obtain ⟨z, hz, hzv⟩ := exists_byte (n := v / 64 % 64 + 128) (by omega)
    obtain ⟨w, hw, hwv⟩ := exists_byte (n := v % 64 + 128) (by omega)
    rw [hx, hy, hz, hw] at h
    cases h
    rw [first_eq, if_neg (by omega), Lead.ofByte?_eq, if_neg (by omega), if_neg (by omega),
      if_neg (by omega), if_pos (by omega)]
    simp only [List.cons_append, List.nil_append, read_cons, UInt8.reduceToNat]
    rw [if_pos (by split_ifs <;> simp only [UInt8.reduceToNat] <;> omega), if_pos (by omega),
      if_pos (by omega), show ((b.toNat % 8 * 64 + y.toNat % 64) * 64 + z.toNat % 64) * 64 +
        w.toNat % 64 = v by omega]
    simp only [hback]
    rfl

/-! ## Whole byte strings -/

theorem chunksFrom_append {k : Nat} {s : List UInt8} (h : s.length = k) (r : List UInt8) :
    chunksFrom k (s ++ r) = chunks r := by
  subst h
  induction s with
  | nil => rfl
  | cons b s ih => exact ih

/-- The encoding of a character is the first chunk, whatever bytes follow. -/
theorem chunks_encodeChar (c : Char) (r : List UInt8) :
    chunks (String.utf8EncodeChar c ++ r) =
      .char c (String.utf8EncodeChar c).length :: chunks r := by
  obtain ⟨b, t, hbt⟩ := List.exists_cons_of_ne_nil (l := String.utf8EncodeChar c)
    String.utf8EncodeChar_ne_nil
  have hfirst := first_of_encodeChar hbt r
  rw [hbt, List.cons_append, chunks, chunksFrom, hfirst]
  exact congrArg _ (chunksFrom_append rfl r)

theorem decodeChunks_encode (s : List Char) (index : Nat) :
    decodeChunks index (chunks (encode s)) = .ok s := by
  induction s generalizing index with
  | nil => rfl
  | cons c s ih =>
    rw [encode_cons, chunks_encodeChar, decodeChunks, ih]
    rfl

theorem encode_of_decodeChunks {bytes : List UInt8} {s : List Char} {index : Nat}
    (h : decodeChunks index (chunks bytes) = .ok s) : encode s = bytes := by
  induction hn : bytes.length using Nat.strongRecOn generalizing bytes s index with
  | ind n ih =>
    subst hn
    cases bytes with
    | nil => cases h; rfl
    | cons b r =>
      rw [chunks, chunksFrom] at h
      cases hfirst : Chunk.first b r with
      | char c n =>
        obtain ⟨t, rest, rfl, hbt, rfl⟩ := encodeChar_of_first hfirst
        rw [hfirst, decodeChunks, Chunk.length, Nat.add_sub_cancel, chunksFrom_append rfl] at h
        cases hrest : decodeChunks (index + (t.length + 1)) (chunks rest) with
        | error e => rw [hrest] at h; cases h
        | ok s' =>
          rw [hrest] at h
          cases h
          rw [encode_cons, hbt, ih rest.length _ hrest rfl]
          · rfl
          · rw [List.length_cons, List.length_append]
            omega
      | malformed n => rw [hfirst] at h; cases h
      | truncated n => rw [hfirst] at h; cases h

/-- **Bytes are text just when they are its encoding.** -/
theorem decode_eq_ok {bytes : List UInt8} {s : List Char} :
    decode bytes = .ok s ↔ encode s = bytes := by
  constructor
  · exact encode_of_decodeChunks
  · rintro rfl
    exact decodeChunks_encode s 0

/-! ## Reading with losses -/

theorem decodeLossy_encode (s : List Char) : decodeLossy (encode s) = s := by
  induction s with
  | nil => rfl
  | cons c s ih =>
    rw [decodeLossy] at ih ⊢
    rw [encode_cons, chunks_encodeChar, List.map_cons, ih]

/-- Where no replacement character is shown, nothing was replaced. -/
theorem decode_of_decodeLossy {bytes : List UInt8} (h : '\ufffd' ∉ decodeLossy bytes) :
    decode bytes = .ok (decodeLossy bytes) := by
  rw [decode, decodeLossy] at *
  generalize (0 : Nat) = index
  generalize chunks bytes = cs at h ⊢
  induction cs generalizing index with
  | nil => rfl
  | cons chunk rest ih =>
    rw [List.map_cons, List.mem_cons, not_or] at h
    cases chunk with
    | char c n => rw [decodeChunks, ih _ h.2]; rfl
    | malformed n => exact absurd rfl h.1
    | truncated n => exact absurd rfl h.1

/-- **A text without replacement characters is shown for its own bytes and for no others.** -/
theorem decodeLossy_eq_iff {bytes : List UInt8} {s : List Char} (h : '\ufffd' ∉ s) :
    decodeLossy bytes = s ↔ bytes = encode s := by
  constructor
  · rintro rfl
    exact (decode_eq_ok.mp (decode_of_decodeLossy h)).symm
  · rintro rfl
    exact decodeLossy_encode s

end AssetPack.Text.Utf8
