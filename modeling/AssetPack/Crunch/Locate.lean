import AssetPack.Error
import AssetPack.Files.FileSystem
import AssetPack.Log

/-!
# Where the crunch tool is

Four sources may name the tool: the settings, two variables of the environment, and a built-in
command name. The first one that is there decides, also when it names a tool that is not there:
no later source is asked.
-/

set_option autoImplicit false

namespace AssetPack

/-- The variables of the environment that name the crunch tool or the place where it is kept. -/
structure ToolEnv where
  tool? : Option Path
  kit? : Option Path
  deriving DecidableEq, Repr

namespace ToolEnv

/-- No variable is set. -/
def empty : ToolEnv := ⟨none, none⟩

/-- The variables as a look-up finds them. An empty value is none. -/
def ofLookup (lookup : String → Option String) : ToolEnv :=
  let path? (name : String) : Option Path := ((lookup name).filter (· ≠ "")).map Path.mk
  ⟨path? "AAPT", path? "ANDROID_HOME"⟩

end ToolEnv

namespace Crunch

variable {σ : Type} [FileSystem σ]

/-- The command name of the tool. -/
def toolName : String := "aapt"

/-- A path at which there has to be a file. -/
def requireFile (fs : σ) (path : Path) : Traced RunError Path :=
  if FileSystem.isFile fs path then pure path else throw (.toolNotFound path)

/-- Where a development kit keeps the tool: with its build tools if it has them in one version,
and with its platform tools otherwise. -/
def kitTool (fs : σ) (kit : Path) : Path :=
  let versions := kit.push "build-tools"
  match FileSystem.listDirs fs versions with
  | .ok [only] => (versions.push only).push toolName
  | _ => (kit.push "platform-tools").push toolName

/-- The path or command name of the tool. What a variable says has to be a file here only if it has
more than one step: a single step may stand for a command. -/
def locate (fs : σ) (configured : Option Path) (env : ToolEnv) : Traced RunError Path := do
  let say (source : String) (path : Path) : Traced RunError Unit :=
    .note .debug s!"using {source}" [("path", path.text)]
  match configured, env.tool?, env.kit? with
  | some path, _, _ => do
    say "configured crunch tool" path
    requireFile fs path
  | none, some path, _ => do
    say "AAPT" path
    if path.components.length > 1 then requireFile fs path else return path
  | none, none, some kit => do
    let path := kitTool fs kit
    say "ANDROID_HOME" path
    requireFile fs path
  | none, none, none => return ⟨toolName⟩

end Crunch

end AssetPack
