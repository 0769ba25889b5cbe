import AssetPack.Java.Literal
import AssetPack.Text.Utf8

/-!
# Content that no class can hold

A shader goes into a string literal, so it has to be text, and text of 16-bit characters.
-/

set_option autoImplicit false

namespace AssetPack

/-- Why content cannot be written as a literal. -/
inductive UnsupportedReason where
  | notText (cause : Text.Utf8.Error)
  | noLiteral (cause : Java.Literal.Unsupported)
  deriving DecidableEq, Repr

/-- A file whose content cannot be written. -/
structure UnsupportedContent where
  fileName : String
  reason : UnsupportedReason
  deriving DecidableEq, Repr

/-- The wording of the reason. -/
def UnsupportedReason.message : UnsupportedReason → String
  | .notText cause => s!"not valid UTF-8: {cause.message}"
  | .noLiteral cause => cause.message

/-- The wording of the error. -/
def UnsupportedContent.message (e : UnsupportedContent) : String :=
  s!"unsupported content in '{e.fileName}': {e.reason.message}"

end AssetPack
