import AssetPack.Config.Read
import AssetPack.Error
import AssetPack.Files.FileSystem

/-!
# Loading the settings of a directory

A directory without a configuration file has the default settings and nothing to warn about.
-/

set_option autoImplicit false

namespace AssetPack.Config

variable {σ : Type} [FileSystem σ]

/-- The settings of a directory, and warnings about its configuration file. -/
def load (fs : σ) (dir : Path) : Except RunError (Config × List ConfigWarning) := do
  let file := dir.push configFileName
  if !FileSystem.isThere fs file then return (default, [])
  let text ← (FileSystem.readText fs file).mapError .file
  (parse file (String.ofList text)).mapError .config

end AssetPack.Config
