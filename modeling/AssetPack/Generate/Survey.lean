import AssetPack.Config.Load
import AssetPack.Outcome
import AssetPack.Scan

/-!
# What a run finds out before it changes anything

Every run begins in the same way: the class name is read, then the settings and the assets of the
source directory, and then the first line of the class that is there already. If that line is the
marker of the assets as they are now, there is nothing to do.
-/

set_option autoImplicit false

namespace AssetPack.Generate

variable {σ α : Type} [FileSystem σ]

/-- What a run knows before it writes. -/
structure Survey (α : Type) where
  className : ClassName
  path : Path
  catalog : Catalog α
  fingerprint : Fingerprint
  isCurrent : Bool

/-- The report of a run that went on from the survey in one way or the other. -/
def Survey.outcome (s : Survey α) (status : RunStatus) : Outcome where
  kind := s.fingerprint.kind
  status
  path := s.path
  assets := s.catalog.size
  fingerprint := s.fingerprint.hex

/-- The class name that a text spells. -/
def readClassName (name : String) : Traced RunError ClassName :=
  .ofExcept ((ClassName.parse name).mapError .className)

/-- The settings of a directory, with an entry for each warning. -/
def readConfig (fs : σ) (dir : Path) : Traced RunError Config := do
  let (config, warnings) ← .ofExcept (Config.load fs dir)
  (⟨warnings.map fun w => ⟨.warn, w.message, []⟩, .ok config⟩ : Traced RunError Config)

/-- Whether the file at a path begins with the marker of a fingerprint. -/
def isCurrent (fs : σ) (path : Path) (f : Fingerprint) : Traced RunError Bool := do
  match ← Scan.ask (FileSystem.firstLine fs path) with
  | none => return false
  | some line =>
    if f.matchesMarker (String.ofList line) then
      Traced.note .info "fingerprint unchanged, skipping" [("path", path.text)]
      return true
    else
      Traced.note .debug "fingerprint changed" [("path", path.text)]
      return false

/-- The survey for a catalog with its fingerprint. -/
def survey (fs : σ) (className : ClassName) (destination : Path) (catalog : Catalog α)
    (fingerprint : Fingerprint) : Traced RunError (Survey α) := do
  let kind := fingerprint.kind
  Traced.note .debug s!"computed {kind.noun 1} fingerprint"
    [("fingerprint", fingerprint.hex), (kind.word, toString catalog.size)]
  let path := className.sourcePath destination
  let isCurrent ← isCurrent fs path fingerprint
  return { className, path, catalog, fingerprint, isCurrent }

end AssetPack.Generate
