import AssetPack.Files.FileSystem
import AssetPack.Host.Disk

/-!
# A disk as a file system

A file is written beside its place and then moved there, so that no one ever sees half of it. What
can go wrong is therefore told of two paths: of the directory, if it cannot be made, and of the
file, if something stands in its place that it cannot replace.
-/

set_option autoImplicit false

namespace AssetPack.Host.Disk

/-- The directory that a file is written in. -/
def holder (p : Path) : Path :=
  let up := p.parent?.getD ⟨""⟩
  if up.text = "" then ⟨"."⟩ else up

/-- Puts a file into place, with the directories on the way to it. -/
def write (d : Disk) (p : Path) (bytes : List UInt8) : Except FileError Unit × Disk :=
  match d.makeDirs (holder p) with
  | (.error e, d') => (.error (.ofSystem (holder p) e), d')
  | (.ok (), d') =>
    match d'.replace p bytes with
    | .error e => (.error (.ofSystem p e), d')
    | .ok d'' => (.ok (), d'')

/-- The text up to the first line feed, if the file is there. -/
def firstLine (d : Disk) (p : Path) : Except FileError (Option (List Char)) :=
  match d.read p with
  | .ok bytes => .ok (some (FileSystem.firstLineOf bytes))
  | .error .noSuchFile => .ok none
  | .error e => .error (.ofSystem p e)

instance : FileSystem Disk where
  read d p := (d.read p).mapError (.ofSystem p)
  firstLine := firstLine
  isThere d p := (d.find? p).isSome
  isDir := isDir
  isFile d p := isFileEntry (d.find? p)
  listFiles d p := (d.list isFileEntry p).mapError (.ofSystem p)
  listDirs d p := (d.list (· = some .directory) p).mapError (.ofSystem p)
  write := write
  createDirs d p :=
    let (made, d') := d.makeDirs p
    (made.mapError (.ofSystem p), d')

/-- Adds a file from outside, with the directories on the way to it. -/
def add (d : Disk) (p : Path) (bytes : List UInt8) : Except SystemError Unit × Disk :=
  match d.makeDirs (holder p) with
  | (.error e, d') => (.error e, d')
  | (.ok (), d') =>
    match d'.overwrite p bytes with
    | .error e => (.error e, d')
    | .ok d'' => (.ok (), d'')

/-- Writes a file as it is, where its directory is there already. -/
def put (d : Disk) (p : Path) (bytes : List UInt8) : Except SystemError Unit × Disk :=
  match d.overwrite p bytes with
  | .error e => (.error e, d)
  | .ok d' => (.ok (), d')

end AssetPack.Host.Disk
