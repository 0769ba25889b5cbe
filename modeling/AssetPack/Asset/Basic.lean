import AssetPack.Asset.Density
import AssetPack.Asset.Identifier
import AssetPack.Digest.ContentHash

/-!
# Assets

A shader is a file of source text, an image a file of picture data. Both are kept as the bytes
that were read: whether a shader's bytes are text is asked when its class is written, and an
image's bytes are never looked into. What a catalog needs of either is its identifier and the name
of its file (`Asset`).
-/

set_option autoImplicit false

namespace AssetPack

/-- A shader's source file. -/
structure Shader where
  identifier : Identifier
  fileName : String
  source : List UInt8
  deriving DecidableEq

/-- How the generated class decodes an image. Only a crunched file can be a compiled nine-patch. -/
inductive ImageFormat where
  | bitmap
  | ninePatch
  deriving DecidableEq, Repr

/-- The word by which a format is shown. -/
def ImageFormat.word : ImageFormat → String
  | .bitmap => "Bitmap"
  | .ninePatch => "NinePatch"

/-- An image file. -/
structure Image where
  identifier : Identifier
  fileName : String
  content : List UInt8
  density : Density
  format : ImageFormat
  deriving DecidableEq

/-- What is catalogued: something with an identifier that came from a file. -/
class Asset (α : Type) where
  identifier : α → Identifier
  fileName : α → String

instance : Asset Shader := ⟨Shader.identifier, Shader.fileName⟩

instance : Asset Image := ⟨Image.identifier, Image.fileName⟩

end AssetPack
