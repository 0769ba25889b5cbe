import AssetPack.Program
import AssetPack.Host.Machine

/-!
# The command

A run of the command works on a copy: the files that it may look at are read first, the program
runs on them, and what it changed is then changed where they came from. So nothing is decided here
but which files those are.

No program can be started from the copy. A run that is to crunch with a tool ends where it would
start it.
-/

set_option autoImplicit false

namespace AssetPack.Console

open Host

/-! ## Reading -/

/-- A directory as the system knows it. -/
def directory (path : String) : IO.FS.DirEntry := { root := path, fileName := "" }

/-- The disk with what stands at a path, and with what is in it as deep as `depth`. What cannot be
read is not there. -/
def load (depth : Nat) (d : Disk) (path : Path) : IO Disk := do
  let place := directory path.text
  if ← place.root.isDir then
    let (_, d) := d.makeDirs path
    match depth with
    | 0 => return d
    | depth + 1 =>
      let entries ← try place.root.readDir catch _ => pure #[]
      entries.foldlM (fun d e => load depth d (path.push e.fileName)) d
  else
    try
      let bytes ← IO.FS.readBinFile place.root
      return (d.add path bytes.toList).2
    catch _ => return d

/-- The paths that a task may look at, each with how deep, as far as its arguments tell. -/
def looksAt (task : CommandLine.Task) (env : ToolEnv) : List (Nat × Path) :=
  let output (className : String) (destination : Path) : List (Nat × Path) :=
    ((ClassName.parse className).toOption.map fun c => (0, c.sourcePath destination)).toList
  match task with
  | .shaders a => (1, a.source) :: output a.className a.destination
  | .images o =>
    (1, o.source) :: output o.className o.destination ++ o.scratch?.toList.map (1, ·) ++
      env.tool?.toList.map (0, ·) ++
      env.kit?.toList.flatMap fun kit =>
        [(2, kit.push "build-tools"), (1, kit.push "platform-tools")]

/-- The source directory of a task. -/
def sourceOf : CommandLine.Task → Path
  | .shaders a => a.source
  | .images o => o.source

/-- The copy that a task works on. -/
def copyFor (task : CommandLine.Task) (env : ToolEnv) : IO Disk := do
  let d ← (looksAt task env).foldlM (fun d (depth, path) => load depth d path) Disk.new
  match Config.load d (sourceOf task) with
  | .ok ({ crunchTool? := some tool, .. }, _) => load 0 d tool
  | _ => return d

/-! ## Writing -/

/-- The path of a place on the copy. -/
def pathOf (d : Disk) (place : Place) : String :=
  (Disk.below? d.here place).getD ("/" ++ "/".intercalate place.reverse)

/-- Does to the files what was done to the copy. A file is written beside its place and moved
there. -/
def store (before after : Disk) : IO Unit := do
  let changed := after.entries.filter fun e => !before.entries.contains e
  for (place, entry) in changed.reverse do
    let path := pathOf after place
    match entry with
    | .directory => IO.FS.createDirAll path
    | .file bytes _ =>
      let beside := path ++ ".new"
      IO.FS.writeBinFile beside ⟨bytes.toArray⟩
      IO.FS.rename beside path
    | .link _ => pure ()

/-! ## Running -/

/-- Prints how the program ended. -/
def display (ending : Program.Ending) : IO UInt32 := do
  for e in ending.entries do
    IO.eprintln e.text
  IO.print ending.output
  if let some report := ending.report? then
    IO.eprint report
  return ending.code.toUInt32

/-- Runs the command with its arguments. -/
def run (arguments : List String) : IO UInt32 := do
  let tool ← IO.getEnv "AAPT"
  let kit ← IO.getEnv "ANDROID_HOME"
  let env := ToolEnv.ofLookup fun name => if name = "AAPT" then tool else kit
  let before ← match CommandLine.parse arguments with
    | .ok request => copyFor request.task env
    | .error _ => pure Disk.new
  let (ending, after) := Program.run arguments env before
  store before after
  display ending

end AssetPack.Console

/-- The command line program. -/
def main (arguments : List String) : IO UInt32 :=
  AssetPack.Console.run arguments
