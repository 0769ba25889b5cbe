import AssetPack.Asset.Catalog
import AssetPack.Error
import AssetPack.Files.FileSystem
import AssetPack.Ignore.Rules
import AssetPack.Log

/-!
# Scanning a directory for assets

A scan looks at the files right in a directory. Hidden files and files that the directory's ignore
file names are out; of the others the name alone says whether a file is an asset, and what kind.
Only then is it read.

Assets are read in ascending order of names and put into a catalog one by one, so of two files
with one identifier it is the later one that is refused.
-/

set_option autoImplicit false

namespace AssetPack.Scan

variable {σ : Type} [FileSystem σ]

/-- The answer of a file system, as a step of a run. -/
def ask {α : Type} (answer : Except FileError α) : Traced RunError α :=
  .ofExcept (answer.mapError .file)

/-! ## Candidates -/

/-- The rules of a directory's ignore file; none if it has no such file. -/
def ignoreRules (fs : σ) (dir : Path) : Traced RunError IgnoreRules := do
  let path := dir.push ignoreFileName
  if !FileSystem.isThere fs path then return .none
  let text ← ask (FileSystem.readText fs path)
  let rules ← .ofExcept ((IgnoreRules.parse dir path (String.ofList text)).mapError .ignoreFile)
  Traced.note .debug "loaded ignore patterns"
    [("path", path.text), ("patterns", toString rules.patterns.length)]
  return rules

/-- Whether the name is that of a hidden file. -/
def isHidden (name : String) : Bool := name.toList.head? = some '.'

/-- The names that the rules leave, with an entry for each one that they take. -/
def unignored (rules : IgnoreRules) (names : List String) : Traced RunError (List String) where
  log := (names.filter rules.isIgnored).map fun name =>
    ⟨.debug, s!"ignored by {ignoreFileName}", [("file", name)]⟩
  result := .ok (names.filter fun name => !rules.isIgnored name)

/-- The names of the files that may be assets, in ascending order. -/
def candidates (fs : σ) (dir : Path) : Traced RunError (List String) := do
  if !FileSystem.isDir fs dir then throw (.directoryNotFound dir)
  let rules ← ignoreRules fs dir
  let names ← ask (FileSystem.listFiles fs dir)
  unignored rules (names.filter fun name => !isHidden name)

/-- Loads things one after the other into a catalog. -/
def collect {α β : Type} [Asset α] (load : β → Traced RunError α) :
    Catalog α → List β → Traced RunError (Catalog α)
  | c, [] => pure c
  | c, b :: rest => do
    let a ← load b
    let c ← .ofExcept ((c.insert a).mapError .duplicate)
    collect load c rest

/-! ## Shaders -/

/-- Whether a file of this name is a shader, for these extensions. -/
def isShaderName (extensions : List String) (name : String) : Bool :=
  ((Path.extension? name).map extensions.contains).getD false

/-- Reads a shader. It is known by its whole name, with the extension. -/
def loadShader (fs : σ) (dir : Path) (name : String) : Traced RunError Shader := do
  let source ← ask (FileSystem.read fs (dir.push name))
  let identifier := Identifier.sanitize name
  Traced.note .debug "found shader"
    [("file", name), ("identifier", identifier.name), ("bytes", toString source.length)]
  return ⟨identifier, name, source⟩

/-- The shaders of a directory. -/
def shaders (fs : σ) (dir : Path) (extensions : List String) :
    Traced RunError (Catalog Shader) := do
  let names ← candidates fs dir
  collect (loadShader fs dir) .empty (names.filter (isShaderName extensions))

/-! ## Images -/

/-- The end of the name of an image that may become a nine-patch. -/
def ninePatchEnd : List Char := ".9.png".toList

/-- The end of the name of any image. -/
def imageEnd : List Char := ".png".toList

/-- What stands before the end of an image's name; nothing if it is not the name of an image. -/
def imageBase? (name : String) : Option String :=
  let before (ending : List Char) := (ending.isSuffixOf? name.toList).map String.ofList
  (before ninePatchEnd).or (before imageEnd)

/-- Whether the name is that of an image which may become a nine-patch. -/
def isNinePatchName (name : String) : Bool := ninePatchEnd.isSuffixOf name.toList

/-- Reads an image. It is known by its base name without the density suffix, and is a plain bitmap
until it is crunched. -/
def loadImage (fs : σ) (dir : Path) (table : DensityTable) :
    String × String → Traced RunError Image
  | (name, base) => do
    let (rest, density) := table.split base
    let identifier := Identifier.sanitize rest
    let content ← ask (FileSystem.read fs (dir.push name))
    Traced.note .debug "found image"
      [("file", name), ("identifier", identifier.name), ("dpi", toString density.dpi),
       ("bytes", toString content.length)]
    return ⟨identifier, name, content, density, .bitmap⟩

/-- The images of a directory. -/
def images (fs : σ) (dir : Path) (table : DensityTable) : Traced RunError (Catalog Image) := do
  let names ← candidates fs dir
  let based := names.filterMap fun name => (imageBase? name).map (name, ·)
  collect (loadImage fs dir table) .empty based

end AssetPack.Scan
