/-!
# Word characters

Letters, digits and the underscore of the basic Latin block. The same set serves two purposes:
it is what an identifier of the shading language consists of, and what an asset's file name is
reduced to. Letters outside that block are not word characters in either sense.
-/

set_option autoImplicit false

namespace AssetPack.Text

/-- A letter, a digit or the underscore. -/
def isWordChar (c : Char) : Bool := c.isAlphanum || c == '_'

end AssetPack.Text
