import AssetPack.Digest.Sha384

/-!
# Content hashes

The digest by which one input is known, shown with the name of the digest in front.
-/

set_option autoImplicit false

namespace AssetPack

/-- The digest of some content. -/
structure ContentHash where
  digest : List UInt8
  deriving DecidableEq, Repr

namespace ContentHash

/-- The hash of a byte string. -/
def ofBytes (bytes : List UInt8) : ContentHash := ⟨Digest.Sha384.digest bytes⟩

/-- The digits of the digest. -/
def hex (h : ContentHash) : List Char := Digest.Sha384.hex h.digest

/-- The digest with its name. -/
def text (h : ContentHash) : List Char := "SHA384:".toList ++ h.hex

end ContentHash

end AssetPack
