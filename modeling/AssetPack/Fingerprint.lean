import AssetPack.Asset.Catalog
import AssetPack.BuildMode
import AssetPack.Java.ClassName
import AssetPack.Text.Quoted
import AssetPack.Text.Utf8

/-!
# Fingerprints

A fingerprint is the digest of everything that decides the bytes of a generated class: which
generator writes it, with which options, from which assets. It stands in the first line of the
class (`markerLine`), where the next run compares it with its own.

What is digested is a seed followed by *records*, each a tag with its values in brackets. Texts
that come from outside are quoted, so that no file name can pass for the end of its record.
-/

set_option autoImplicit false

namespace AssetPack

/-- The two kinds of generated class. -/
inductive ArtifactKind where
  | shaders
  | images
  deriving DecidableEq, Repr

namespace ArtifactKind

/-- The word for the kind in a marker line. -/
def label : ArtifactKind → String
  | .shaders => "Shader"
  | .images => "Image"

/-- What the digest of the kind begins with. -/
def seed : ArtifactKind → String
  | .shaders => "<Shader List Magic String>"
  | .images => "<Image List Magic String>"

end ArtifactKind

/-- The digest of a run, for one kind of class. -/
structure Fingerprint where
  kind : ArtifactKind
  hex : String
  deriving DecidableEq, Repr

namespace Fingerprint

/-- The first line of the generated class, without its line end. -/
def markerLine (f : Fingerprint) : String :=
  s!"// {f.kind.label} hash: {f.hex}"

/-- Whether a line is this fingerprint's marker line. -/
def matchesMarker (f : Fingerprint) (line : String) : Bool := line == f.markerLine

/-! ## Records -/

/-- The value of an option. -/
inductive Value where
  | text (s : String)
  | flag (b : Bool)
  | number (n : Int)
  | absent
  | texts (ss : List String)
  deriving DecidableEq, Repr

/-- A value as it stands in a record. -/
def Value.written : Value → List Char
  | .text s => Text.Quoted.encode s.toList
  | .flag b => (if b then "true" else "false").toList
  | .number n => (toString n).toList
  | .absent => "None".toList
  | .texts ss =>
    '[' :: List.intercalate [',', ' '] (ss.map fun s => Text.Quoted.encode s.toList) ++ [']']

/-- One thing that a fingerprint binds. -/
inductive Record where
  | generator (hash : ContentHash)
  | mode (build : BuildMode)
  | option (name : String) (value : Value)
  | shader (identifier fileName : String) (hash : ContentHash)
  | image (identifier fileName : String) (hash : ContentHash) (dpi : Nat)
  deriving DecidableEq, Repr

namespace Record

/-- The generator with everything that it puts into a class besides the assets. -/
def ofSignature (signature : List Char) : Record :=
  .generator (.ofBytes (Text.Utf8.encode signature))

/-- The record of a shader. -/
def ofShader (s : Shader) : Record :=
  .shader s.identifier.name s.fileName (.ofBytes s.source)

/-- The record of an image. -/
def ofImage (i : Image) : Record :=
  .image i.identifier.name i.fileName (.ofBytes i.content) i.density.dpi

/-- The part that the records of both kinds of assets begin with. -/
def assetPart (identifier fileName : String) (hash : ContentHash) : List Char :=
  Text.Quoted.encode identifier.toList ++ ",filename=".toList ++
    Text.Quoted.encode fileName.toList ++ ",hash=".toList ++ hash.text

/-- The record as it is digested. -/
def written : Record → List Char
  | .generator hash => "Generator(hash=".toList ++ hash.text ++ [')']
  | .mode build => "Debug(".toList ++ build.word.toList ++ [')']
  | .option name value => name.toList ++ '(' :: value.written ++ [')']
  | .shader identifier fileName hash =>
    "Shader(".toList ++ assetPart identifier fileName hash ++ [')']
  | .image identifier fileName hash dpi =>
    "Image(".toList ++ assetPart identifier fileName hash ++ ",dpi=".toList ++
      (toString dpi).toList ++ [')']

end Record

/-! ## Whole fingerprints -/

/-- What is digested for a list of records. -/
def message (kind : ArtifactKind) (records : List Record) : List Char :=
  kind.seed.toList ++ records.flatMap Record.written

/-- The fingerprint of a list of records. -/
def ofRecords (kind : ArtifactKind) (records : List Record) : Fingerprint where
  kind
  hex := String.ofList (ContentHash.ofBytes (Text.Utf8.encode (message kind records))).hex

/-- What the fingerprint of a class of shaders binds. -/
def shaderRecords (signature : List Char) (mode : BuildMode) (c : ClassName)
    (shaders : Catalog Shader) : List Record :=
  .ofSignature signature :: .mode mode :: .option "Class" (.text c.full) ::
    shaders.assets.map .ofShader

/-- What the fingerprint of a class of images binds: the bytes of the image files as they were
found, and whether they are crunched, but not what crunching makes of them. -/
def imageRecords (signature : List Char) (c : ClassName) (crunched : Bool)
    (images : Catalog Image) : List Record :=
  .ofSignature signature :: .option "Class" (.text c.full) ::
    .option "CrunchEnabled" (.flag crunched) :: images.assets.map .ofImage

/-- The fingerprint of a class of shaders. -/
def ofShaders (signature : List Char) (mode : BuildMode) (c : ClassName)
    (shaders : Catalog Shader) : Fingerprint :=
  ofRecords .shaders (shaderRecords signature mode c shaders)

/-- The fingerprint of a class of images. -/
def ofImages (signature : List Char) (c : ClassName) (crunched : Bool)
    (images : Catalog Image) : Fingerprint :=
  ofRecords .images (imageRecords signature c crunched images)

end Fingerprint

end AssetPack
