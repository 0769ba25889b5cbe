import AssetPack.Text.Numeral

/-!
# UTF-8 — reading bytes as text, and where that fails

Bytes are read as a list of *chunks*: a character, or a stretch that is no character. A bad
stretch is the longest start of a possible sequence that the bytes contain, so that a following
good sequence is never eaten; it is `malformed` if some later byte spoils it and `truncated` if
the bytes simply end.

Three readings are built on that: `decode` refuses bad stretches and says where the first one
stands, `decodeLossy` puts one replacement character for each, and `encode` is the way back.
-/

set_option autoImplicit false

namespace AssetPack.Text.Utf8

/-- The bytes of a text. -/
def encode (s : List Char) : List UInt8 :=
  s.flatMap String.utf8EncodeChar

/-! ## Sequences -/

/-- What a first byte announces: the bits it contributes, the range that the second byte must lie
in, and how many bytes follow that one. -/
structure Lead where
  bits : Nat
  low : UInt8
  high : UInt8
  more : Nat

/-- The first bytes of sequences of two to four bytes. The narrowed ranges of the second byte
shut out overlong forms, surrogates and numbers above U+10FFFF. -/
def Lead.ofByte? (b : UInt8) : Option Lead :=
  if b < 0xC2 then none
  else if b < 0xE0 then some ⟨(b &&& 0x1F).toNat, 0x80, 0xBF, 0⟩
  else if b < 0xF0 then
    let low := if b == 0xE0 then 0xA0 else 0x80
    let high := if b == 0xED then 0x9F else 0xBF
    some ⟨(b &&& 0x0F).toNat, low, high, 1⟩
  else if b < 0xF5 then
    let low := if b == 0xF0 then 0x90 else 0x80
    let high := if b == 0xF4 then 0x8F else 0xBF
    some ⟨(b &&& 0x07).toNat, low, high, 2⟩
  else none

/-- How the bytes after a first byte go on: with a whole character, with a byte that does not
belong, or not at all. `taken` counts the bytes that did belong. -/
inductive Continuation where
  | whole (code taken : Nat)
  | broken (taken : Nat)
  | ended (taken : Nat)

/-- Follows a sequence through `more + 1` further bytes, the first of which must lie between
`low` and `high`. -/
def Continuation.read (bits : Nat) (low high : UInt8) (taken : Nat) :
    (more : Nat) → List UInt8 → Continuation
  | _, [] => .ended taken
  | more, b :: r =>
    if low ≤ b && b ≤ high then
      let bits := bits * 64 + (b &&& 0x3F).toNat
      match more with
      | 0 => .whole bits (taken + 1)
      | more + 1 => Continuation.read bits 0x80 0xBF (taken + 1) more r
    else .broken taken

/-! ## Chunks -/

/-- A character, or the length of a stretch of bytes that is none. -/
inductive Chunk where
  | char (c : Char) (length : Nat)
  | malformed (length : Nat)
  | truncated (length : Nat)
  deriving DecidableEq, Repr

/-- How many bytes the chunk covers. -/
def Chunk.length : Chunk → Nat
  | .char _ n => n
  | .malformed n => n
  | .truncated n => n

/-- The chunk at the front of `b :: r`. -/
def Chunk.first (b : UInt8) (r : List UInt8) : Chunk :=
  if b < 0x80 then .char (Char.ofNat b.toNat) 1
  else
    match Lead.ofByte? b with
    | none => .malformed 1
    | some lead =>
      match Continuation.read lead.bits lead.low lead.high 0 lead.more r with
      | .whole code taken => .char (Char.ofNat code) (taken + 1)
      | .broken taken => .malformed (taken + 1)
      | .ended taken => .truncated (taken + 1)

/-- The chunks of a byte string. `skip` counts the bytes that still belong to the chunk before. -/
def chunksFrom (skip : Nat) : List UInt8 → List Chunk
  | [] => []
  | b :: r =>
    match skip with
    | k + 1 => chunksFrom k r
    | 0 => Chunk.first b r :: chunksFrom ((Chunk.first b r).length - 1) r

/-- The chunks of a byte string, in order. -/
def chunks (bytes : List UInt8) : List Chunk := chunksFrom 0 bytes

/-! ## Readings -/

/-- Why bytes are not text: the first bad stretch and the index at which it starts. -/
inductive Error where
  | malformed (length index : Nat)
  | truncated (index : Nat)
  deriving DecidableEq, Repr

/-- The wording of a decoding error. -/
def Error.message : Error → String
  | .malformed length index =>
    s!"invalid utf-8 sequence of {length} bytes from index {index}"
  | .truncated index => s!"incomplete utf-8 byte sequence from index {index}"

/-- The characters of the chunks, if all are characters; `index` is where the first one starts. -/
def decodeChunks (index : Nat) : List Chunk → Except Error (List Char)
  | [] => .ok []
  | .char c n :: r => (decodeChunks (index + n) r).map (c :: ·)
  | .malformed n :: _ => .error (.malformed n index)
  | .truncated _ :: _ => .error (.truncated index)

/-- The text that the bytes encode. -/
def decode (bytes : List UInt8) : Except Error (List Char) :=
  decodeChunks 0 (chunks bytes)

/-- The text of the bytes, with a replacement character for every stretch that is no character. -/
def decodeLossy (bytes : List UInt8) : List Char :=
  (chunks bytes).map fun
    | .char c _ => c
    | _ => '\ufffd'

end AssetPack.Text.Utf8
