import AssetPack.Crunch.Cruncher
import AssetPack.Files.Memory
import AssetPack.Host.Shell

/-!
# Starting programs

A disk with programs on it. A program is found by its path, or by its name among those that come
with the machine; it is one of these programs or a script that names the one that reads it.

Files in memory make a machine as well, but one whose programs see none of them: they are run on
a disk of their own, which is new each time.
-/

set_option autoImplicit false

namespace AssetPack.Host

namespace Disk

/-- The programs that read scripts. -/
def shells : List String := ["sh", "dash", "bash"]

/-- The names of the machine's own programs. -/
def programNames : List String := shells ++ ["env", "kill"] ++ Program.table.map Prod.fst

/-- A disk with nothing in the current directory. -/
def new : Disk where
  entries :=
    programNames.map (fun name => (name :: programDir, .file [] true)) ++
      [(["bin"], .link "usr/bin"), (["usr"], .directory), (programDir, .directory),
       (["tmp"], .directory), (["work", "tmp"], .directory)]
  here := ["work", "tmp"]

end Disk

/-! ## Starting a program -/

/-- A program that was found: its place, its bytes, and the path by which it is known. -/
structure Found where
  place : Place
  bytes : List UInt8
  path : String

/-- The program at a path, if it may be run. -/
def findAt (d : Disk) (path : String) : Except SystemError Found := do
  match ← d.find true ⟨path⟩ with
  | (place, .file bytes true) => return ⟨place, bytes, path⟩
  | _ => throw .permissionDenied

/-- The program that a command names: by a path, if there is a slash in it. -/
def findProgram (d : Disk) (name : String) : Except SystemError Found :=
  findAt d (if name.toList.contains '/' then name else "/usr/bin/" ++ name)

/-- What ended, and the disk afterwards. -/
abbrev Started : Type := Except SystemError Completed × Disk

/-- The end of one of the machine's programs. -/
def Ran.started (r : Ran) : Started :=
  (.ok ⟨.code r.status, r.transcript.on .output, r.transcript.on .errors⟩, r.disk)

/-- How deep scripts may stand in the words of scripts. -/
def maxDepth : Nat := 8

/-- Runs the text of a script. -/
def startScript (d : Disk) (name : String) (arguments : List String) (stopsOnError : Bool)
    (text : List UInt8) : Started :=
  let sh := Shell.start d name arguments stopsOnError
  let after := sh.runText maxDepth (Text.Utf8.decodeLossy text)
  (.ok ⟨after.exitStatus, after.transcript.on .output, after.transcript.on .errors⟩,
    { after.disk with here := d.here })

/-- Starts a shell with its arguments: options, then a script's path and its arguments. -/
def startShell (d : Disk) (stopsOnError : Bool) : List String → Started
  | [] => (.ok ⟨.code 0, [], []⟩, d)
  | ["-c", text] => startScript d "sh" [] stopsOnError (Program.bytes text)
  | "-c" :: text :: name :: rest => startScript d name rest stopsOnError (Program.bytes text)
  | a :: rest =>
    if a.toList.head? = some '-' then startShell d (stopsOnError || a.toList.contains 'e') rest
    else
      match d.read ⟨a⟩ with
      | .ok text => startScript d a rest stopsOnError text
      | .error e => (Program.complains d "sh" s!"cannot open {a}: {e.words}").started

/-- Starts one of the machine's own programs. -/
def startOwn (d : Disk) (name : String) (arguments : List String) : Started :=
  if Disk.shells.contains name then startShell d false arguments
  else
    match name, arguments with
    | "env", program :: rest =>
      let name := Program.lastName program
      if Disk.shells.contains name then startShell d false rest
      else
        match Program.table.lookup name with
        | some run => (run d rest []).started
        | none => (Program.complains d "env" s!"'{program}': No such file or directory").started
    | _, _ =>
      match Program.table.lookup name with
      | some run => (run d arguments []).started
      | none => (.ok ⟨.code 1, [], []⟩, d)

/-- What the first line of a script says: the path of the program that reads it, and an argument
for that. -/
def interpreter? (bytes : List UInt8) : Option (String × List String) :=
  match Text.Utf8.decodeLossy (bytes.takeWhile (· != 0x0A)) with
  | '#' :: '!' :: line =>
    let isSpace (c : Char) : Bool := c == ' ' || c == '\t'
    let line := Text.trimWith isSpace line
    let path := line.takeWhile fun c => !isSpace c
    let argument := (line.dropWhile fun c => !isSpace c).dropWhile isSpace
    if path = [] then none
    else some (String.ofList path, if argument = [] then [] else [String.ofList argument])
  | _ => none

/-- Starts a program that was found. -/
def startFound (d : Disk) (f : Found) (arguments : List String) : Started :=
  match f.place with
  | name :: dir =>
    if dir = Disk.programDir then startOwn d name arguments
    else
      match interpreter? f.bytes with
      | none => (.error .execFormat, d)
      | some (path, extra) =>
        match findAt d path with
        | .error e => (.error e, d)
        | .ok reader =>
          if reader.place.tail = Disk.programDir then
            startOwn d (Program.lastName path) (extra ++ f.path :: arguments)
          else (.error .execFormat, d)
  | [] => (.error .permissionDenied, d)

/-- Whether the system cannot be told a command, because of a character in its words. -/
def isUntellable (c : Command) : Bool := (c.program.text :: c.arguments).any Disk.hasNul

/-- Runs a command to its end. -/
def start (d : Disk) (c : Command) : Started :=
  if isUntellable c then (.error (.other "nul byte found in provided data"), d)
  else
    match findProgram d c.program.text with
    | .error e => (.error e, d)
    | .ok f => startFound d f c.arguments

instance : Machine Disk where
  spawn := start

instance : Machine Memory where
  spawn m c := ((start Disk.new c).1, m)

/-! ## Counting -/

/-- A state, and how often something was done to it. -/
structure Counted (σ : Type) where
  state : σ
  count : Nat

namespace Counted

variable {σ α : Type}

/-- The state after a step. -/
def step (c : Counted σ) (result : α × σ) : α × Counted σ :=
  (result.1, { c with state := result.2 })

instance [FileSystem σ] : FileSystem (Counted σ) where
  read c := FileSystem.read c.state
  firstLine c := FileSystem.firstLine c.state
  isThere c := FileSystem.isThere c.state
  isDir c := FileSystem.isDir c.state
  isFile c := FileSystem.isFile c.state
  listFiles c := FileSystem.listFiles c.state
  listDirs c := FileSystem.listDirs c.state
  write c p bytes := c.step (FileSystem.write c.state p bytes)
  createDirs c p := c.step (FileSystem.createDirs c.state p)

instance [Machine σ] : Machine (Counted σ) where
  spawn c command := c.step (Machine.spawn c.state command)

/-- A cruncher that counts how often it runs. -/
def counting (cruncher : Cruncher σ) : Cruncher (Counted σ) := fun source scratch c =>
  let (x, s) := cruncher source scratch c.state
  (x, ⟨s, c.count + 1⟩)

end Counted

end AssetPack.Host
