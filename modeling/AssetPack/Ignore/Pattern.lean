import AssetPack.Ignore.GlobSyntax
import AssetPack.Text.Blank

/-!
# Ignore patterns

One line of an ignore file: a glob with marks around it, which are those of gitignore files. An
exclamation mark in front takes names back in, a slash in front ties the glob to the directory
itself, and a slash at the end restricts it to directories. A glob without a slash that is not tied
may describe a name in any directory. Blanks at the end do not count, but for a space behind a
backslash.
-/

set_option autoImplicit false

namespace AssetPack

/-- A line whose glob has a fault; `glob` is the line without the blanks at its end. -/
structure IgnorePatternError where
  glob : List Char
  fault : GlobFault
  deriving DecidableEq, Repr

/-- The wording of the error. -/
def IgnorePatternError.message (e : IgnorePatternError) : String :=
  s!"error parsing glob '{String.ofList e.glob}': {e.fault.message}"

/-- A compiled line of an ignore file. -/
structure IgnorePattern where
  glob : Glob
  takesBack : Bool
  directoriesOnly : Bool
  deriving DecidableEq, Repr

namespace IgnorePattern

/-- A line without the blanks at its end. A backslash before a single space keeps that space. -/
def trimLine (line : List Char) : List Char :=
  match line.reverse with
  | ' ' :: '\\' :: _ => line
  | _ => Text.trimEnd line

/-- The marks in front of a glob: whether it takes names back, whether it is tied to the
directory, and the glob itself. A backslash takes the meaning from an exclamation mark or a hash
sign. -/
def readFront : List Char → Bool × Bool × List Char
  | '\\' :: '!' :: r => (false, false, '!' :: r)
  | '\\' :: '#' :: r => (false, false, '#' :: r)
  | '!' :: '/' :: r => (true, true, r)
  | '!' :: r => (true, false, r)
  | '/' :: r => (false, true, r)
  | s => (false, false, s)

/-- The mark behind a glob: whether it is restricted to directories, and the glob without the
slash that says so and without a backslash before that. -/
def readBack (s : List Char) : Bool × List Char :=
  match s.reverse with
  | '/' :: '\\' :: r => (true, r.reverse)
  | '/' :: r => (true, r.reverse)
  | _ => (false, s)

/-- The glob for names in any directory, unless it is tied or says itself in which. -/
def anywhere (tied : Bool) (glob : List Char) : List Char :=
  if tied || glob.contains '/' || glob = ['*', '*'] then glob else '*' :: '*' :: '/' :: glob

/-- A glob for everything below a directory describes what is in it, and not the directory. -/
def insideOnly (glob : List Char) : List Char :=
  match glob.reverse with
  | '*' :: '*' :: '/' :: _ => glob ++ ['/', '*']
  | _ => glob

/-- The pattern that a line spells. -/
def compile (line : List Char) : Except IgnorePatternError IgnorePattern :=
  let trimmed := trimLine line
  let (takesBack, tied, rest) := readFront trimmed
  let (directoriesOnly, text) := readBack rest
  match Glob.parse (insideOnly (anywhere tied text)) with
  | .ok glob => .ok { glob, takesBack, directoriesOnly }
  | .error fault => .error ⟨trimmed, fault⟩

/-- What the pattern says of a file: `some true` to ignore it, `some false` to take it back, and
nothing if it does not fit. -/
def verdict? (p : IgnorePattern) (name : List UInt8) : Option Bool :=
  if !p.directoriesOnly && p.glob.fits name then some (!p.takesBack) else none

end IgnorePattern

end AssetPack
