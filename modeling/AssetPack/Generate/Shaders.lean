import AssetPack.Emit.Shaders
import AssetPack.Generate.Survey
import AssetPack.Job

/-!
# Generating a class of shaders

The only change that a run can make is to write the class, and that comes last: whatever else goes
wrong, the files are as they were.
-/

set_option autoImplicit false

namespace AssetPack.Generate

variable {σ : Type} [FileSystem σ]

/-- What to make a class of shaders from. -/
structure ShaderOptions where
  source : Path
  destination : Path
  className : String
  mode : BuildMode
  deriving DecidableEq, Repr

/-- The survey of a source directory of shaders. -/
def surveyShaders (o : ShaderOptions) (fs : σ) : Traced RunError (Survey Shader) := do
  let c ← readClassName o.className
  let config ← readConfig fs o.source
  let catalog ← Scan.shaders fs o.source config.plainExtensions
  survey fs c o.destination catalog (.ofShaders Emit.shaderSignature o.mode c catalog)

/-- Generates the class, unless it is current. -/
def shaders (o : ShaderOptions) : Job σ Outcome := do
  let found ← Job.inspect (surveyShaders o)
  if found.isCurrent then return found.outcome .skipped
  let text ← Job.lift <|
    (Emit.shaders found.className o.mode found.catalog found.fingerprint).mapError .unsupported
  Job.write found.path (Text.Utf8.encode text)
  Job.note .info "wrote shaders"
    [("path", found.path.text), ("shaders", toString found.catalog.size), ("mode", o.mode.word)]
  return found.outcome .written

end AssetPack.Generate
