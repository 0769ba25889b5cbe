import AssetPack.Glsl.Comment

/-!
# Build modes

Which variants of a shader a generated class carries. A class of undetermined mode carries both
and chooses when it runs.
-/

set_option autoImplicit false

namespace AssetPack

/-- The kind of build that the generated class is for. -/
inductive BuildMode where
  | debug
  | release
  | undetermined
  deriving DecidableEq, Repr

namespace BuildMode

/-- The word by which a mode is given and shown. -/
def word : BuildMode → String
  | .debug => "debug"
  | .release => "release"
  | .undetermined => "undetermined"

/-- The mode that a word stands for. -/
def ofWord? (s : String) : Option BuildMode :=
  [debug, release, undetermined].find? (·.word == s)

/-- The mode of a build that is known to be a debug build or known not to be. -/
def ofDebug : Bool → BuildMode
  | true => .debug
  | false => .release

/-- Whether it is a debug build, if that is known. -/
def isDebug? : BuildMode → Option Bool
  | .debug => some true
  | .release => some false
  | .undetermined => none

end BuildMode

end AssetPack
