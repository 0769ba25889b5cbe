import AssetPack.Files.Error
import AssetPack.Text.Utf8

/-!
# A disk in memory

A disk is a list of places with what stands there: files, directories and links. The root is
always a directory. Paths are resolved step by step, as a system does it: every step but the last
has to lead to a directory, a link is replaced by the path that it holds, and two dots lead to the
directory above the one that was reached, not to the one that was written before them.

Errors are those that a system gives, so that what fails and why can be told from them.
-/

set_option autoImplicit false

namespace AssetPack.Host

/-- A place on a disk: the names that lead to it, the last one first. -/
abbrev Place : Type := List String

/-- What stands at a place. -/
inductive Entry where
  | file (bytes : List UInt8) (executable : Bool)
  | directory
  | link (target : String)
  deriving DecidableEq, Repr

/-- The places of a disk, and the directory where relative paths begin. -/
structure Disk where
  entries : List (Place × Entry)
  here : Place
  deriving DecidableEq, Repr

namespace Disk

/-! ## Places -/

/-- What stands at a place. -/
def entry? (d : Disk) (place : Place) : Option Entry :=
  if place = [] then some .directory else d.entries.lookup place

/-- The disk with something put at a place. -/
def set (d : Disk) (place : Place) (e : Entry) : Disk :=
  { d with entries := (place, e) :: d.entries.filter fun f => f.1 ≠ place }

/-- The disk without a place and everything in it. -/
def erase (d : Disk) (place : Place) : Disk :=
  { d with entries := d.entries.filter fun f => !place.isSuffixOf f.1 }

/-- The disk without what is in a place. -/
def clear (d : Disk) (place : Place) : Disk :=
  { d with entries := d.entries.filter fun f => f.1 = place || !place.isSuffixOf f.1 }

/-- Whether a directory stands at a place. -/
def isDirAt (d : Disk) (place : Place) : Bool := d.entry? place = some .directory

/-- The names in a directory. -/
def namesAt (d : Disk) (place : Place) : List String :=
  d.entries.filterMap fun f =>
    match f.1 with
    | name :: up => if up = place then some name else none
    | [] => none

/-! ## Paths -/

/-- The most bytes that a name may have. -/
def maxName : Nat := 255

/-- The most bytes that a path may have. -/
def maxPath : Nat := 4095

/-- The most links that a path may lead through. -/
def maxLinks : Nat := 40

/-- The names in a path. -/
def names (text : String) : List String :=
  ((Text.split '/' text.toList).filter (· ≠ [])).map String.ofList

/-- Whether a path ends in a slash, which only a directory's may. -/
def hasFinalSlash (text : String) : Bool := text.toList.getLast? = some '/'

/-- The steps of a path. A final slash is a step that stays where it is. -/
def steps (text : String) : List String :=
  names text ++ if hasFinalSlash text then ["."] else []

/-- The place where a path begins. -/
def start (current : Place) (text : String) : Place :=
  if text.toList.head? = some '/' then [] else current

/-- Where steps lead from a place. A last name that is not there is a place as well; a link at the
end is followed if `follow` says so. At most `links` links are followed. -/
def walk (d : Disk) (follow : Bool) (links : Nat) (place : Place) :
    List String → Except SystemError Place
  | [] => .ok place
  | name :: rest =>
    if !d.isDirAt place then .error .notDirectory
    else if name = "." then walk d follow links place rest
    else if name = ".." then walk d follow links place.tail rest
    else if maxName < name.utf8ByteSize then .error .nameTooLong
    else
      match d.entry? (name :: place) with
      | none => if rest = [] then .ok (name :: place) else .error .noSuchFile
      | some (.link target) =>
        if rest = [] ∧ !follow then .ok (name :: place)
        else
          match links with
          | 0 => .error .tooManyLinks
          | links + 1 =>
            walk d follow links (start place target) (steps target ++ rest)
      | some _ => walk d follow links (name :: place) rest
termination_by s => (links, s.length)

/-- Whether a text holds the character that ends a text for the system. -/
def hasNul (text : String) : Bool := text.toList.contains '\x00'

/-- A path that can be asked for at all. -/
def checkPath (text : String) : Except SystemError Unit :=
  if hasNul text then
    .error (.other "file name contained an unexpected NUL byte")
  else if text = "" then .error .noSuchFile
  else if maxPath < text.utf8ByteSize then .error .nameTooLong
  else .ok ()

/-- The place that a path leads to. -/
def resolve (d : Disk) (follow : Bool) (p : Path) : Except SystemError Place := do
  checkPath p.text
  d.walk follow maxLinks (start d.here p.text) (steps p.text)

/-- The place that a path leads to, and what stands there. -/
def find (d : Disk) (follow : Bool) (p : Path) : Except SystemError (Place × Entry) := do
  let place ← d.resolve follow p
  match d.entry? place with
  | some e => return (place, e)
  | none => throw .noSuchFile

/-- What a path leads to, if anything. -/
def find? (d : Disk) (p : Path) : Option Entry := (d.find true p).toOption.map Prod.snd

/-- Whether a path leads to a directory. -/
def isDir (d : Disk) (p : Path) : Bool := d.find? p = some .directory

/-- Whether what was found is a file. -/
def isFileEntry : Option Entry → Bool
  | some (.file _ _) => true
  | _ => false

/-! ## Last steps -/

/-- Where something new may be put: a directory, and the last name of a path. -/
structure Slot where
  directory : Place
  name : String
  finalSlash : Bool

/-- The place of the slot. -/
def Slot.place (s : Slot) : Place := s.name :: s.directory

/-- Whether the last name is not a name but a step. -/
def Slot.isStep (s : Slot) : Bool := s.name = "." || s.name = ".."

/-- The slot of a path, if its directory is there. The root has none. -/
def slot? (d : Disk) (p : Path) : Except SystemError (Option Slot) := do
  checkPath p.text
  match (names p.text).getLast? with
  | none => return none
  | some name =>
    let directory ← d.walk true maxLinks (start d.here p.text) ((names p.text).dropLast ++ ["."])
    return some ⟨directory, name, hasFinalSlash p.text⟩

/-! ## Operations -/

/-- The bytes of a file. -/
def read (d : Disk) (p : Path) : Except SystemError (List UInt8) := do
  match (← d.find true p).2 with
  | .file bytes _ => return bytes
  | _ => throw .isDirectory

/-- Makes one directory. -/
def makeDir (d : Disk) (p : Path) : Except SystemError Disk := do
  match ← d.slot? p with
  | none => throw .fileExists
  | some s =>
    if s.isStep then throw .fileExists
    else if maxName < s.name.utf8ByteSize then throw .nameTooLong
    else if (d.entry? s.place).isSome then throw .fileExists
    else return d.set s.place .directory

/-- A path and the directories on the way to it, the nearest first; at most `depth` of them. -/
def lineage (depth : Nat) (p : Path) : List Path :=
  match depth with
  | 0 => []
  | depth + 1 => p :: ((p.parent?.map (lineage depth)).getD [])

/-- The disk after an attempt to make a directory, which counts as made if it is there. -/
def settle (d : Disk) (p : Path) : Except SystemError Disk → Except SystemError Unit × Disk
  | .ok d' => (.ok (), d')
  | .error e => (if d.isDir p then .ok () else .error e, d)

/-- Makes the first of a line of directories, and for that the others as far as they are
missing. -/
def makeLine (d : Disk) : List Path → Except SystemError Unit × Disk
  | [] => (.ok (), d)
  | p :: line =>
    if p.text = "" then (.ok (), d)
    else
      match d.makeDir p with
      | .error .noSuchFile =>
        match makeLine d line with
        | (.error e, d') => (.error e, d')
        | (.ok (), d') => d'.settle p (d'.makeDir p)
      | made => d.settle p made

/-- Makes a directory with those on the way to it. -/
def makeDirs (d : Disk) (p : Path) : Except SystemError Unit × Disk :=
  d.makeLine (lineage (p.components.length + 1) p)

/-- Writes a file where a path leads. A file that is there keeps what it is but for its bytes. -/
def overwrite (d : Disk) (p : Path) (bytes : List UInt8) : Except SystemError Disk := do
  let place ← d.resolve true p
  match d.entry? place with
  | some .directory => throw .isDirectory
  | some (.file _ executable) => return d.set place (.file bytes executable)
  | _ => return d.set place (.file bytes false)

/-- Puts a new file in the place of whatever a path names, unless that is a directory. -/
def replace (d : Disk) (p : Path) (bytes : List UInt8) : Except SystemError Disk := do
  if hasNul p.text then throw .invalidArgument
  match ← d.slot? p with
  | none => throw .busy
  | some s =>
    if s.isStep then throw .busy
    else if maxName < s.name.utf8ByteSize then throw .nameTooLong
    else if s.finalSlash then throw .notDirectory
    else if d.isDirAt s.place then throw .isDirectory
    else return d.set s.place (.file bytes false)

/-- Makes a link. -/
def link (d : Disk) (p : Path) (target : String) : Except SystemError Disk := do
  checkPath target
  match ← d.slot? p with
  | none => throw .fileExists
  | some s =>
    if s.isStep then throw .fileExists
    else if maxName < s.name.utf8ByteSize then throw .nameTooLong
    else if (d.entry? s.place).isSome then throw .fileExists
    else if s.finalSlash then throw .noSuchFile
    else return d.set s.place (.link target)

/-- Makes a file one that can be run, or not. -/
def setExecutable (d : Disk) (runs : Bool) (p : Path) : Except SystemError Disk := do
  match ← d.find true p with
  | (place, .file bytes _) => return d.set place (.file bytes runs)
  | _ => return d

/-- Makes a file one that can be run. -/
def makeExecutable (d : Disk) (p : Path) : Except SystemError Disk := d.setExecutable true p

/-- Takes away an empty directory. -/
def removeDir (d : Disk) (p : Path) : Except SystemError Disk := do
  match ← d.slot? p with
  | none => throw .busy
  | some s =>
    if s.name = "." then throw .invalidArgument
    else if s.name = ".." then throw .notEmpty
    else if maxName < s.name.utf8ByteSize then throw .nameTooLong
    else
      match d.entry? s.place with
      | none => throw .noSuchFile
      | some .directory =>
        if d.namesAt s.place = [] then return d.erase s.place else throw .notEmpty
      | some _ => throw .notDirectory

/-- Takes away a file, a link or a whole directory. A directory is emptied first and then taken
away by its path, so one that its path does not name, but leads to, stays behind without what was
in it. That its path leads nowhere any more is no failure. -/
def remove (d : Disk) (p : Path) : Except SystemError Unit × Disk :=
  match d.find false p with
  | .error e => (.error e, d)
  | .ok (place, .directory) =>
    let emptied := d.clear place
    match emptied.removeDir p with
    | .ok d' => (.ok (), d')
    | .error .noSuchFile => (.ok (), emptied)
    | .error e => (.error e, emptied)
  | .ok (place, _) => (.ok (), d.erase place)

/-- The names in a directory that lead to something of the wanted kind, in ascending order. -/
def list (d : Disk) (wanted : Option Entry → Bool) (p : Path) :
    Except SystemError (List String) := do
  let (place, e) ← d.find true p
  if e ≠ .directory then throw .notDirectory
  let leads (name : String) : Bool :=
    wanted ((d.walk true maxLinks place [name]).toOption.bind d.entry?)
  return ((d.namesAt place).filter leads).mergeSort fun a b => decide (a ≤ b)

/-- The path of a place, as it is written below another; nothing if it does not lie there. -/
def below? (top place : Place) : Option String :=
  (top.isSuffixOf? place).map fun rest => "/".intercalate rest.reverse

/-- The paths below the current directory of everything that is no directory, in ascending
order. -/
def tree (d : Disk) : List String :=
  let paths := d.entries.filterMap fun f =>
    if f.2 = .directory then none else below? d.here f.1
  paths.mergeSort fun a b => decide (a ≤ b)

end Disk

end AssetPack.Host
