import AssetPack.Files.Error
import AssetPack.Text.Utf8

/-!
# File systems

What the generator asks of the place where files are kept. Reading and listing are functions of
the state; only `write` and `createDirs` give a new one. Every operation that can fail says why,
with the path that it was asked for.
-/

set_option autoImplicit false

namespace AssetPack

/-- A state that holds files and directories. -/
class FileSystem (σ : Type) where
  /-- The bytes of a file. -/
  read : σ → Path → Except FileError (List UInt8)
  /-- The text up to the first line feed, or nothing if there is no such file. Bytes that are no
  text are replaced. -/
  firstLine : σ → Path → Except FileError (Option (List Char))
  /-- Whether a file or directory is there. -/
  isThere : σ → Path → Bool
  /-- Whether a directory is there. -/
  isDir : σ → Path → Bool
  /-- Whether a file is there. -/
  isFile : σ → Path → Bool
  /-- The names of the files of a directory, in ascending order. -/
  listFiles : σ → Path → Except FileError (List String)
  /-- The names of the directories of a directory, in ascending order. -/
  listDirs : σ → Path → Except FileError (List String)
  /-- Puts a file into place, with the directories on the way to it. -/
  write : σ → Path → List UInt8 → Except FileError Unit × σ
  /-- Makes a directory, with the directories on the way to it. -/
  createDirs : σ → Path → Except FileError Unit × σ

namespace FileSystem

variable {σ : Type} [FileSystem σ]

/-- The text of a file. -/
def readText (fs : σ) (path : Path) : Except FileError (List Char) := do
  let bytes ← read fs path
  (Text.Utf8.decode bytes).mapError fun _ => .invalidUtf8 path

/-- The bytes up to the first line feed, as text. -/
def firstLineOf (bytes : List UInt8) : List Char :=
  Text.Utf8.decodeLossy (bytes.takeWhile (· != 0x0A))

end FileSystem

end AssetPack
