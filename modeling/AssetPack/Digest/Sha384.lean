import AssetPack.Text.Numeral

/-!
# SHA-384

The digest of a byte string, by the standard's own steps: pad to whole blocks, fold the blocks
into eight chaining words, keep the first six. The message schedule is never stored: a round takes
the oldest of a window of sixteen words and appends the word that the recurrence makes of it.
-/

set_option autoImplicit false

namespace AssetPack.Digest.Sha384

/-! ## Words -/

/-- Rotation to the right. -/
def rotate (w : UInt64) (n : UInt64) : UInt64 :=
  (w >>> n) ||| (w <<< (64 - n))

/-- Eight bytes as a word, the first byte highest. -/
def wordOfBytes (bytes : List UInt8) : UInt64 :=
  bytes.foldl (fun w b => (w <<< 8) ||| b.toUInt64) 0

/-- A word as eight bytes, the highest first. -/
def bytesOfWord (w : UInt64) : List UInt8 :=
  [(56 : UInt64), 48, 40, 32, 24, 16, 8, 0].map fun n => (w >>> n).toUInt8

/-- The first 64 bits of the fractional parts of the cube roots of the first eighty primes. -/
def roundConstants : List UInt64 :=
  [0x428a2f98d728ae22, 0x7137449123ef65cd, 0xb5c0fbcfec4d3b2f, 0xe9b5dba58189dbbc,
   0x3956c25bf348b538, 0x59f111f1b605d019, 0x923f82a4af194f9b, 0xab1c5ed5da6d8118,
   0xd807aa98a3030242, 0x12835b0145706fbe, 0x243185be4ee4b28c, 0x550c7dc3d5ffb4e2,
   0x72be5d74f27b896f, 0x80deb1fe3b1696b1, 0x9bdc06a725c71235, 0xc19bf174cf692694,
   0xe49b69c19ef14ad2, 0xefbe4786384f25e3, 0x0fc19dc68b8cd5b5, 0x240ca1cc77ac9c65,
   0x2de92c6f592b0275, 0x4a7484aa6ea6e483, 0x5cb0a9dcbd41fbd4, 0x76f988da831153b5,
   0x983e5152ee66dfab, 0xa831c66d2db43210, 0xb00327c898fb213f, 0xbf597fc7beef0ee4,
   0xc6e00bf33da88fc2, 0xd5a79147930aa725, 0x06ca6351e003826f, 0x142929670a0e6e70,
   0x27b70a8546d22ffc, 0x2e1b21385c26c926, 0x4d2c6dfc5ac42aed, 0x53380d139d95b3df,
   0x650a73548baf63de, 0x766a0abb3c77b2a8, 0x81c2c92e47edaee6, 0x92722c851482353b,
   0xa2bfe8a14cf10364, 0xa81a664bbc423001, 0xc24b8b70d0f89791, 0xc76c51a30654be30,
   0xd192e819d6ef5218, 0xd69906245565a910, 0xf40e35855771202a, 0x106aa07032bbd1b8,
   0x19a4c116b8d2d0c8, 0x1e376c085141ab53, 0x2748774cdf8eeb99, 0x34b0bcb5e19b48a8,
   0x391c0cb3c5c95a63, 0x4ed8aa4ae3418acb, 0x5b9cca4f7763e373, 0x682e6ff3d6b2b8a3,
   0x748f82ee5defb2fc, 0x78a5636f43172f60, 0x84c87814a1f0ab72, 0x8cc702081a6439ec,
   0x90befffa23631e28, 0xa4506cebde82bde9, 0xbef9a3f7b2c67915, 0xc67178f2e372532b,
   0xca273eceea26619c, 0xd186b8c721c0c207, 0xeada7dd6cde0eb1e, 0xf57d4f7fee6ed178,
   0x06f067aa72176fba, 0x0a637dc5a2c898a6, 0x113f9804bef90dae, 0x1b710b35131c471b,
   0x28db77f523047d84, 0x32caab7b40c72493, 0x3c9ebe0a15c9bebc, 0x431d67c49c100d4c,
   0x4cc5d4becb3e42b6, 0x597f299cfc657e2a, 0x5fcb6fab3ad6faec, 0x6c44198c4a475817]

/-! ## Chaining -/

/-- The eight chaining words. -/
structure Chain where
  a : UInt64
  b : UInt64
  c : UInt64
  d : UInt64
  e : UInt64
  f : UInt64
  g : UInt64
  h : UInt64

/-- The first 64 bits of the fractional parts of the square roots of the ninth to the sixteenth
prime. -/
def Chain.initial : Chain :=
  ⟨0xcbbb9d5dc1059ed8, 0x629a292a367cd507, 0x9159015a3070dd17, 0x152fecd8f70e5939,
   0x67332667ffc00b31, 0x8eb44a8768581511, 0xdb0c2e0d64f98fa7, 0x47b5481dbefa4fa4⟩

/-- Word by word sum. -/
def Chain.add (x y : Chain) : Chain :=
  ⟨x.a + y.a, x.b + y.b, x.c + y.c, x.d + y.d, x.e + y.e, x.f + y.f, x.g + y.g, x.h + y.h⟩

/-- One round with the schedule word and constant already added up. -/
def Chain.round (s : Chain) (input : UInt64) : Chain :=
  let choice := (s.e &&& s.f) ^^^ (~~~s.e &&& s.g)
  let majority := (s.a &&& s.b) ^^^ (s.a &&& s.c) ^^^ (s.b &&& s.c)
  let t1 := s.h + (rotate s.e 14 ^^^ rotate s.e 18 ^^^ rotate s.e 41) + choice + input
  let t2 := (rotate s.a 28 ^^^ rotate s.a 34 ^^^ rotate s.a 39) + majority
  ⟨t1 + t2, s.a, s.b, s.c, s.d + t1, s.e, s.f, s.g⟩

/-- The schedule word that follows a window of sixteen. -/
def nextWord (window : List UInt64) : UInt64 :=
  let word (i : Nat) := window.getD i 0
  let s0 := rotate (word 1) 1 ^^^ rotate (word 1) 8 ^^^ (word 1 >>> 7)
  let s1 := rotate (word 14) 19 ^^^ rotate (word 14) 61 ^^^ (word 14 >>> 6)
  s1 + word 9 + s0 + word 0

/-- The rounds for the given constants. -/
def Chain.rounds (s : Chain) (window : List UInt64) : List UInt64 → Chain
  | [] => s
  | k :: ks =>
    (s.round (k + window.getD 0 0)).rounds (window.drop 1 ++ [nextWord window]) ks

/-- A list in stretches of `n + 1`; the last may be shorter. -/
def stretches {α : Type} (n : Nat) (xs : List α) : List (List α) :=
  match xs with
  | [] => []
  | x :: r => (x :: r.take n) :: stretches n (r.drop n)
termination_by xs.length
decreasing_by simp only [List.length_drop, List.length_cons]; omega

/-- The chaining words after one more block. -/
def Chain.block (s : Chain) (bytes : List UInt8) : Chain :=
  s.add (s.rounds ((stretches 7 bytes).map wordOfBytes) roundConstants)

/-! ## The digest -/

/-- The message followed by one set bit, zeros, and its length in bits as a number of sixteen
bytes, in blocks of 128 bytes. -/
def pad (message : List UInt8) : List UInt8 :=
  let bits := message.length * 8
  let zeros := (239 - message.length % 128) % 128
  message ++ 0x80 :: List.replicate zeros 0 ++
    bytesOfWord (bits / UInt64.size).toUInt64 ++ bytesOfWord bits.toUInt64

/-- The 48 bytes of the digest. -/
def digest (message : List UInt8) : List UInt8 :=
  let s := (stretches 127 (pad message)).foldl Chain.block Chain.initial
  [s.a, s.b, s.c, s.d, s.e, s.f].flatMap bytesOfWord

/-- Bytes as lower-case hexadecimal digits, two for each. -/
def hex (bytes : List UInt8) : List Char :=
  bytes.flatMap fun b => Text.digits 16 2 b.toNat

end AssetPack.Digest.Sha384
