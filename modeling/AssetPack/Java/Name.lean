/-!
# Names of the target language

The identifiers that a generated class may use: a letter, underscore or dollar sign, then any
number of those and digits. Only the basic Latin block counts, and reserved words are not told
apart from other names.
-/

set_option autoImplicit false

namespace AssetPack.Java

/-- A character that may begin a name. -/
def isNameStart (c : Char) : Bool := c.isAlpha || c == '_' || c == '$'

/-- A character that may continue a name. -/
def isNamePart (c : Char) : Bool := c.isAlphanum || c == '_' || c == '$'

/-- Whether a text is a name. -/
def isName : List Char → Bool
  | [] => false
  | c :: r => isNameStart c && r.all isNamePart

end AssetPack.Java
