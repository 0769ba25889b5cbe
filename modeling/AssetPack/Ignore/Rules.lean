import AssetPack.Files.Path
import AssetPack.Ignore.Expression
import AssetPack.Ignore.Pattern
import AssetPack.Text.Lines

/-!
# Ignore files

A directory's ignore file lists patterns, one a line; blank lines and lines that begin with a hash
sign are comments. A file is ignored if the last pattern that fits its name says so.

Files are small by rule: a limit on bytes is checked first, then lines are taken one by one, and
the first that is one pattern too many or has a fault refuses the whole file. What the patterns
are matched by is looked at in the end.
-/

set_option autoImplicit false

namespace AssetPack

/-- The name of the ignore file of a directory. -/
def ignoreFileName : String := ".assetignore"

/-- Why an ignore file is refused. -/
inductive IgnoreError where
  | tooLarge (path : Path) (bytes : Nat)
  | tooManyPatterns (path : Path) (count : Nat)
  | badPattern (path : Path) (line : Nat) (text : List Char) (cause : IgnorePatternError)
  | badExpression (fault : ExpressionFault)
  deriving DecidableEq, Repr

namespace IgnoreError

/-- The most bytes that an ignore file may have. -/
def maxBytes : Nat := 65536

/-- The most patterns that an ignore file may have. -/
def maxPatterns : Nat := 1000

/-- The wording of the refusal. -/
def message : IgnoreError → String
  | .tooLarge path bytes =>
    s!"{ignoreFileName} exceeds {maxBytes / 1024}KB limit ({bytes} bytes): {path.text}"
  | .tooManyPatterns path count =>
    s!"{ignoreFileName} has {count} patterns, exceeds {maxPatterns} limit: {path.text}"
  | .badPattern path line text cause =>
    s!"invalid pattern at {path.text}:{line}: '{String.ofList text}' - {cause.message}"
  | .badExpression fault => s!"failed to build ignore matcher: {fault.message}"

end IgnoreError

/-- The patterns of an ignore file, in the order of its lines, and the directory that they are
for. -/
structure IgnoreRules where
  root : Path
  patterns : List IgnorePattern

namespace IgnoreRules

/-- No patterns. -/
def none : IgnoreRules := ⟨⟨""⟩, []⟩

/-- Whether a line is a pattern, and no comment. -/
def isPatternLine (line : List Char) : Bool :=
  match Text.trim line with
  | [] => false
  | c :: _ => c != '#'

/-- Compiles lines, `number` being the number of the first one and `count` the number of patterns
before it. -/
def compileLines (path : Path) (number count : Nat) :
    List (List Char) → Except IgnoreError (List IgnorePattern)
  | [] => .ok []
  | line :: rest =>
    if isPatternLine line then
      if count + 1 > IgnoreError.maxPatterns then .error (.tooManyPatterns path (count + 1))
      else
        match IgnorePattern.compile line with
        | .error cause => .error (.badPattern path number line cause)
        | .ok pattern => (compileLines path (number + 1) (count + 1) rest).map (pattern :: ·)
    else compileLines path (number + 1) count rest

/-- The patterns of an ignore file of the given path and text, line by line. -/
def compile (path : Path) (text : String) : Except IgnoreError (List IgnorePattern) :=
  if text.utf8ByteSize > IgnoreError.maxBytes then .error (.tooLarge path text.utf8ByteSize)
  else compileLines path 1 0 (Text.records text.toList)

/-- The rules for `root` that patterns make, if all of them can be matched. -/
def ofPatterns (root : Path) (patterns : List IgnorePattern) : Except IgnoreError IgnoreRules :=
  match ExpressionFault.of? (patterns.map (·.glob)) with
  | some fault => .error (.badExpression fault)
  | Option.none => .ok ⟨root, patterns⟩

/-- The rules for `root` in an ignore file of the given path and text. -/
def parse (root path : Path) (text : String) : Except IgnoreError IgnoreRules := do
  ofPatterns root (← compile path text)

/-- The text without a beginning, if it has that beginning. -/
def dropStart (start text : List UInt8) : List UInt8 :=
  (start.isPrefixOf? text).getD text

/-- A name as the patterns see it: relative to the directory. A name without a slash never holds
the directory's own name. -/
def relativeName (root : Path) (name : String) : List UInt8 :=
  let bytes (s : String) := s.toList.flatMap String.utf8EncodeChar
  let here := bytes "./"
  let plain := ("./".toList.isPrefixOf? root.text.toList).getD root.text.toList
  let root : Path := ⟨String.ofList plain⟩
  let name := dropStart here (bytes name)
  if root.same ⟨"."⟩ || !name.contains Glob.slash then name
  else
    match (bytes root.text).isPrefixOf? name with
    | some rest => dropStart [Glob.slash] rest
    | Option.none => name

/-- What the last fitting pattern says of a name, if one fits. -/
def verdict? (r : IgnoreRules) (name : String) : Option Bool :=
  r.patterns.reverse.findSome? fun p => p.verdict? (relativeName r.root name)

/-- Whether a file is ignored. -/
def isIgnored (r : IgnoreRules) (name : String) : Bool := (r.verdict? name).getD false

end IgnoreRules

end AssetPack
