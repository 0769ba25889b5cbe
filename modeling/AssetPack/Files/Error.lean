import AssetPack.Files.Path

/-!
# Errors of a file system

`SystemError` is what the system itself says about a failed call; `FileError` is such a failure
with the path that the caller had asked for. Missing files and refused access are failures of
their own, since a caller may want to tell them apart; everything else keeps the system's words.
-/

set_option autoImplicit false

namespace AssetPack

/-- Why a call to the system failed. -/
inductive SystemError where
  | noSuchFile
  | permissionDenied
  | fileExists
  | notDirectory
  | isDirectory
  | invalidArgument
  | nameTooLong
  | tooManyLinks
  | notEmpty
  | execFormat
  | busy
  | other (text : String)
  deriving DecidableEq, Repr

namespace SystemError

/-- The system's words. -/
def words : SystemError → String
  | .noSuchFile => "No such file or directory"
  | .permissionDenied => "Permission denied"
  | .fileExists => "File exists"
  | .notDirectory => "Not a directory"
  | .isDirectory => "Is a directory"
  | .invalidArgument => "Invalid argument"
  | .nameTooLong => "File name too long"
  | .tooManyLinks => "Too many levels of symbolic links"
  | .notEmpty => "Directory not empty"
  | .execFormat => "Exec format error"
  | .busy => "Device or resource busy"
  | .other text => text

/-- The system's number, for failures that have one. -/
def number? : SystemError → Option Nat
  | .noSuchFile => some 2
  | .permissionDenied => some 13
  | .fileExists => some 17
  | .notDirectory => some 20
  | .isDirectory => some 21
  | .invalidArgument => some 22
  | .nameTooLong => some 36
  | .tooManyLinks => some 40
  | .notEmpty => some 39
  | .execFormat => some 8
  | .busy => some 16
  | .other _ => none

/-- The system's words and number. -/
def message (e : SystemError) : String :=
  e.words ++ (e.number?.map fun n => s!" (os error {n})").getD ""

end SystemError

/-- A failed operation on a path. -/
inductive FileError where
  | notFound (path : Path)
  | permissionDenied (path : Path)
  | invalidUtf8 (path : Path)
  | system (path : Path) (cause : SystemError)
  deriving DecidableEq, Repr

namespace FileError

/-- The failure of a call for a path. -/
def ofSystem (path : Path) : SystemError → FileError
  | .noSuchFile => .notFound path
  | .permissionDenied => .permissionDenied path
  | cause => .system path cause

/-- The wording of the failure. -/
def message : FileError → String
  | .notFound path => s!"File not found: {path.text}"
  | .permissionDenied path => s!"Permission denied: {path.text}"
  | .invalidUtf8 path => s!"Not valid UTF-8: {path.text}"
  | .system path cause => s!"I/O error on {path.text}: {cause.message}"

end FileError

end AssetPack
