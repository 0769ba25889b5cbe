/-!
# The generator's own name

Name and version of the program, as they go into fingerprints and version texts.
-/

set_option autoImplicit false

namespace AssetPack

/-- The program's name. -/
def programName : String := "assetc"

/-- The program's version. -/
def programVersion : String := "0.1.0"

end AssetPack
