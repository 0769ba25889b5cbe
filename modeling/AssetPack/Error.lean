import AssetPack.Asset.Catalog
import AssetPack.Config.Read
import AssetPack.Emit.Unsupported
import AssetPack.Ignore.Rules
import AssetPack.Java.ClassName
import AssetPack.Files.Error

/-!
# Why a run fails

Every failure ends a run. Most belong to one of the things that a run deals with and keep their own
type; the rest are failures of the run itself: a directory or tool that is not there, and a tool
that cannot be started or does not succeed.
-/

set_option autoImplicit false

namespace AssetPack

/-- How a program ended. -/
inductive ExitStatus where
  | code (n : Nat)
  | signal (n : Nat) (name : String)
  deriving DecidableEq, Repr

/-- The status as it is shown. -/
def ExitStatus.text : ExitStatus → String
  | .code n => s!"exit status: {n}"
  | .signal n name => s!"signal: {n} ({name})"

/-- The failure of a run. -/
inductive RunError where
  | className (e : ClassNameError)
  | config (e : ConfigError)
  | toolNotFound (path : Path)
  | directoryNotFound (path : Path)
  | duplicate (e : DuplicateIdentifier)
  | toolSpawn (command : String) (cause : SystemError)
  | toolFailed (command : String) (status : ExitStatus) (output : String)
  | unsupported (e : UnsupportedContent)
  | ignoreFile (e : IgnoreError)
  | file (e : FileError)
  | system (cause : SystemError)
  deriving DecidableEq

namespace RunError

/-- The wording of the failure. -/
def message : RunError → String
  | .className e => e.message
  | .config e => e.message
  | .toolNotFound path => s!"crunch tool not found: {path.text}"
  | .directoryNotFound path => s!"directory not found: {path.text}"
  | .duplicate e => e.message
  | .toolSpawn command cause => s!"failed to run '{command}': {cause.message}"
  | .toolFailed command status output => s!"'{command}' failed ({status.text}):\n{output}"
  | .unsupported e => e.message
  | .ignoreFile e => e.message
  | .file e => e.message
  | .system cause => s!"IO error: {cause.message}"

/-- The failure that lies behind this one. -/
def cause? : RunError → Option SystemError
  | .toolSpawn _ cause => some cause
  | .file (.system _ cause) => some cause
  | .system cause => some cause
  | _ => none

end RunError

end AssetPack
