import AssetPack.Generate.Images
import AssetPack.Generate.Shaders

/-!
# What a command line asks for

Two commands, each with options of its own, and options about the program's own output that may
stand before or after the command.
-/

set_option autoImplicit false

namespace AssetPack.CommandLine

/-- What the command for shaders was given. -/
structure ShaderArguments where
  source : Path
  destination : Path
  className : String
  buildMode : BuildMode
  debug? : Option Bool
  deriving DecidableEq, Repr

namespace ShaderArguments

/-- The mode of the build. Whether it is a debug build says more than its mode. -/
def mode (a : ShaderArguments) : BuildMode := (a.debug?.map BuildMode.ofDebug).getD a.buildMode

/-- What to make the class from. -/
def options (a : ShaderArguments) : Generate.ShaderOptions :=
  ⟨a.source, a.destination, a.className, a.mode⟩

end ShaderArguments

/-- What to do. -/
inductive Task where
  | shaders (arguments : ShaderArguments)
  | images (options : Generate.ImageOptions)
  deriving DecidableEq, Repr

/-- A task, and how to report on it. -/
structure Request where
  task : Task
  asObject : Bool
  verbosity : Nat
  deriving DecidableEq, Repr

/-- The word for the most detailed entries that are logged at a verbosity. -/
def levelWord : Nat → String
  | 0 => "WARN"
  | 1 => "INFO"
  | 2 => "DEBUG"
  | _ => "TRACE"

/-- Whether an entry is logged at a verbosity. -/
def isLogged (verbosity : Nat) : LogLevel → Bool
  | .warn => true
  | .info => 1 ≤ verbosity
  | .debug => 2 ≤ verbosity

/-- Why a command line asks for nothing that can be done. -/
inductive Refusal where
  | help
  | version
  | nothingGiven
  | noCommand
  | badCommand
  | unknownArgument
  | missingArgument
  | conflict
  | badValue
  | surplusValue
  deriving DecidableEq, Repr

end AssetPack.CommandLine
