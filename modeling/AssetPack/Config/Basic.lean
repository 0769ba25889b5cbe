import AssetPack.Asset.Density
import AssetPack.Files.Path

/-!
# Settings

What a source directory may say about its assets: which file extensions are shaders, which tool
crunches its images, and which density suffixes its image names use besides the built-in ones.
-/

set_option autoImplicit false

namespace AssetPack

/-- The name of the configuration file of a directory. -/
def configFileName : String := "assetc.toml"

/-- The settings of a directory. Densities are in ascending order of their suffixes. -/
structure Config where
  extensions : List String
  crunchTool? : Option Path
  densities : List (String × Nat)
  deriving DecidableEq, Repr

namespace Config

/-- The settings of a directory that says nothing. -/
def default : Config where
  extensions := ["fsh", "vsh"]
  crunchTool? := none
  densities := []

/-- The extensions without the dots in front, and without those that are nothing but dots. -/
def plainExtensions (c : Config) : List String :=
  (c.extensions.map fun e => String.ofList (e.toList.dropWhile (· == '.'))).filter (· ≠ "")

/-- The built-in densities with the settings' own. -/
def densityTable (c : Config) : DensityTable :=
  DensityTable.builtin.assignAll c.densities

/-- The largest density that the target language's integers hold. -/
def maxDensity : Nat := 2147483647

/-- The first density that is too large, in the order of suffixes. -/
def oversized? (c : Config) : Option (String × Nat) :=
  c.densities.find? fun d => maxDensity < d.2

end Config

end AssetPack
