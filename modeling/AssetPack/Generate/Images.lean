import AssetPack.Crunch.Cruncher
import AssetPack.Emit.Images
import AssetPack.Generate.Survey

/-!
# Generating a class of images

The crunch tool is looked for before the images are, but runs only if the class is to be written.
It works on the files themselves; what the class then holds is what lies in the scratch directory
afterwards, under the names of the images that were found at first. The fingerprint is that of the
images as they were found.
-/

set_option autoImplicit false

namespace AssetPack.Generate

variable {σ : Type}

/-- What to make a class of images from. A scratch directory is what asks for crunching. -/
structure ImageOptions where
  source : Path
  destination : Path
  className : String
  scratch? : Option Path
  deriving DecidableEq, Repr

/-- The survey of a source directory of images, for a tool that is there. -/
def surveyImages [FileSystem σ] (o : ImageOptions) (config : Config) (c : ClassName) (fs : σ) :
    Traced RunError (Survey Image) := do
  let catalog ← Scan.images fs o.source config.densityTable
  survey fs c o.destination catalog (.ofImages Emit.imageSignature c o.scratch?.isSome catalog)

/-! ## Crunching -/

/-- The cruncher of a run and the directory to crunch into, if there is one: the given cruncher, or
the tool that the settings and the environment name. -/
def chooseCruncher [Machine σ] (o : ImageOptions) (given : Option (Cruncher σ)) (env : ToolEnv)
    (config : Config) (fs : σ) : Traced RunError (Option (Cruncher σ × Path)) :=
  match o.scratch?, given with
  | none, _ => pure none
  | some scratch, some cruncher => pure (some (cruncher, scratch))
  | some scratch, none => do
    let program ← Crunch.locate fs config.crunchTool? env
    return some (.ofProgram program, scratch)

/-- An image as it is after crunching. -/
def crunchedImage [FileSystem σ] (fs : σ) (scratch : Path) (i : Image) : Traced RunError Image := do
  let content ← Scan.ask (FileSystem.read fs (scratch.push i.fileName))
  Traced.note .debug "crunched"
    [("image", i.identifier.name), ("before", toString i.content.length),
     ("after", toString content.length)]
  return { i with
    content, format := if Scan.isNinePatchName i.fileName then .ninePatch else .bitmap }

/-- Crunches a directory and takes over what came of the images of a catalog. -/
def crunch [FileSystem σ] (cruncher : Cruncher σ) (source scratch : Path)
    (catalog : Catalog Image) : Job σ (Catalog Image) := do
  Job.createDirs scratch
  cruncher source scratch
  Job.inspect fun fs => catalog.mapM (crunchedImage fs scratch)

/-! ## The run -/

/-- Generates the class, unless it is current. -/
def images [Machine σ] (o : ImageOptions) (env : ToolEnv) (given : Option (Cruncher σ)) :
    Job σ Outcome := do
  let c ← Job.lift (readClassName o.className)
  let config ← Job.inspect fun fs => readConfig fs o.source
  let cruncher ← Job.inspect (chooseCruncher o given env config)
  let found ← Job.inspect (surveyImages o config c)
  if found.isCurrent then return found.outcome .skipped
  let catalog ← match cruncher with
    | none => pure found.catalog
    | some (cruncher, scratch) => crunch cruncher o.source scratch found.catalog
  let text ← Job.lift ((Emit.imageClass c catalog found.fingerprint).mapError .unsupported)
  Job.write found.path (Text.Utf8.encode text)
  Job.note .info "wrote images"
    [("path", found.path.text), ("images", toString found.catalog.size)]
  return found.outcome .written

end AssetPack.Generate
