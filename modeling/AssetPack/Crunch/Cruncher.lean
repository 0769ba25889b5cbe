import AssetPack.Crunch.Locate
import AssetPack.Job
import AssetPack.Text.Blank

/-!
# Crunching

A cruncher reads the images of one directory and puts crunched files of the same names into
another. The real one is a tool, started as a program of the machine; any other job on the machine
will do as well, since a run asks only what files are there afterwards.
-/

set_option autoImplicit false

namespace AssetPack

/-! ## Programs of a machine -/

/-- A program with its arguments. -/
structure Command where
  program : Path
  arguments : List String
  deriving DecidableEq, Repr

/-- The command as it is shown. -/
def Command.text (c : Command) : String := " ".intercalate (c.program.text :: c.arguments)

/-- What a program left when it ended. -/
structure Completed where
  status : ExitStatus
  output : List UInt8
  errors : List UInt8
  deriving DecidableEq, Repr

/-- Whether the program ended well. -/
def Completed.isSuccess (c : Completed) : Bool := c.status = .code 0

/-- What a program reported, without blanks at the end. -/
def Completed.report (stream : List UInt8) : String :=
  String.ofList (Text.trimEnd (Text.Utf8.decodeLossy stream))

/-- A state with files and programs that can be run on them. -/
class Machine (σ : Type) extends FileSystem σ where
  /-- Runs a program to its end, unless it cannot be started. -/
  spawn : σ → Command → Except SystemError Completed × σ

/-! ## Crunchers -/

/-- Something that crunches one directory into another. -/
abbrev Cruncher (σ : Type) : Type := (source scratch : Path) → Job σ Unit

namespace Cruncher

variable {σ : Type}

/-- A directory as an argument. A relative one is made to begin with a dot, so that it never looks
like an option. -/
def directoryArgument (dir : Path) : String :=
  if dir.isAbsolute then dir.text else (Path.push ⟨"."⟩ dir.text).text

/-- The command that crunches. -/
def command (program source scratch : Path) : Command where
  program
  arguments := ["c", "-S", directoryArgument source, "-C", directoryArgument scratch]

/-- The failure of a program, with what it reported as an error or else at all. -/
def failure (command : String) (c : Completed) : RunError :=
  let errors := Completed.report c.errors
  .toolFailed command c.status (if errors = "" then Completed.report c.output else errors)

/-- The cruncher that a program is. -/
def ofProgram [Machine σ] (program : Path) : Cruncher σ := fun source scratch => do
  let command := command program source scratch
  Job.note .info "crunching images" [("command", command.text)]
  let done ← Job.change (.toolSpawn command.text) fun s => Machine.spawn s command
  if !done.isSuccess then Job.lift (throw (failure command.text done))
  Job.note .debug "crunch finished" [("stdout", Completed.report done.output)]

/-- Copies one file, with a stamp in front, by means of `put`. -/
def copyFile [FileSystem σ] (put : σ → Path → List UInt8 → Except SystemError Unit × σ)
    (stamp : List UInt8) (source scratch : Path) (name : String) : Job σ Unit := do
  let bytes ← Job.inspect fun s => .ofExcept ((FileSystem.read s (source.push name)).mapError .file)
  Job.change .system fun s => put s (scratch.push name) (stamp ++ bytes)

/-- Copies files one by one. -/
def copyFiles [FileSystem σ] (put : σ → Path → List UInt8 → Except SystemError Unit × σ)
    (stamp : List UInt8) (source scratch : Path) : List String → Job σ Unit
  | [] => pure ()
  | name :: rest => do
    copyFile put stamp source scratch name
    copyFiles put stamp source scratch rest

/-- A cruncher that only puts a stamp in front of every file, and leaves some out. -/
def stamping [FileSystem σ] (put : σ → Path → List UInt8 → Except SystemError Unit × σ)
    (stamp : List UInt8) (skip : List String) : Cruncher σ := fun source scratch => do
  let names ← Job.inspect fun s => .ofExcept ((FileSystem.listFiles s source).mapError .file)
  copyFiles put stamp source scratch (names.filter fun name => !skip.contains name)

end Cruncher

end AssetPack
