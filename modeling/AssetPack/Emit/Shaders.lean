import AssetPack.Emit.Generator
import AssetPack.Emit.Unsupported
import AssetPack.Fingerprint
import AssetPack.Glsl.Minify
import AssetPack.Log

/-!
# Classes of shaders

One constant for each shader, in the order of the catalog. Its value is the minified text as a
literal or, in a class of undetermined mode, a choice between the literals of both variants. The
first shader that has no literal stops the class; nothing is written for part of a catalog.
-/

set_option autoImplicit false

namespace AssetPack.Emit

/-- What identifies the layout of a class of shaders. -/
def shaderSignature : List Char :=
  s!"{programName} {programVersion} java-shaders/1".toList

/-- The line of a class's package. -/
def packageLine (package : String) : List Char :=
  "package ".toList ++ package.toList ++ ";\n".toList

/-- The literal of a shader's text in one variant. -/
def variantLiteral (fileName : String) (text : List Char) (v : Glsl.Variant) :
    Except UnsupportedContent (List Char) :=
  (Java.Literal.encode (Glsl.minify v text)).mapError fun e => ⟨fileName, .noLiteral e⟩

/-- The value of a shader's constant. -/
def shaderValue (mode : BuildMode) (s : Shader) : Except UnsupportedContent (List Char) := do
  let text ← (Text.Utf8.decode s.source).mapError fun e => ⟨s.fileName, .notText e⟩
  match mode with
  | .debug => variantLiteral s.fileName text .debug
  | .release => variantLiteral s.fileName text .release
  | .undetermined =>
    let debug ← variantLiteral s.fileName text .debug
    let release ← variantLiteral s.fileName text .release
    return "(BuildConfig.DEBUG ? ".toList ++ debug ++ " : ".toList ++ release ++ [')']

/-- The line that declares a shader's constant. -/
def constantLine (s : Shader) (value : List Char) : List Char :=
  "  public static final String ".toList ++ s.identifier.name.toList ++ " = ".toList ++ value ++
    ";\n".toList

/-- The lines of all constants. -/
def constantLines (mode : BuildMode) : List Shader → Traced UnsupportedContent (List Char)
  | [] => pure []
  | s :: rest => do
    let value ← Traced.ofExcept (shaderValue mode s)
    Traced.note .debug "emitted shader"
      [("shader", s.identifier.name), ("bytes", toString value.length)]
    let lines ← constantLines mode rest
    return constantLine s value ++ lines

/-- What stands above the constants. -/
def shaderHeader (c : ClassName) (f : Fingerprint) : List Char :=
  f.markerLine.toList ++ '\n' ::
    ((c.package?.map fun p => packageLine p ++ ['\n']).getD [] ++
      "final class ".toList ++ c.simpleName.toList ++ " \x7b\n".toList)

/-- The class of a catalog of shaders. -/
def shaders (c : ClassName) (mode : BuildMode) (catalog : Catalog Shader) (f : Fingerprint) :
    Traced UnsupportedContent (List Char) := do
  let lines ← constantLines mode catalog.assets
  return shaderHeader c f ++ lines ++ "\x7d\n".toList

end AssetPack.Emit
