import AssetPack.CommandLine.Parse
import AssetPack.Emit.Generator

/-!
# The program

A run of the program on a machine: what it prints, what it complains about, and the status with
which it ends. A line that cannot be understood ends with 2, a failure with 1 and a report of it,
and everything else with 0.
-/

set_option autoImplicit false

namespace AssetPack.Program

open CommandLine

/-- How a run of the program ended. The entries are those that are logged at its verbosity. -/
structure Ending where
  code : Nat
  output : String
  entries : Log
  report? : Option String

/-! ## Reports -/

/-- A text behind a heading, with its other lines moved to the right as far as the first one. -/
def behind (heading : String) (text : String) : String :=
  let margin := List.replicate heading.length ' '
  match Text.splitLf text.toList with
  | [] => heading
  | first :: rest =>
    heading ++ String.ofList (Text.joinLf (first :: rest.map (margin ++ ·)))

/-- The report of a failure: what the run was to do, and why it could not. A failure that has
another one behind it is reported with both, by number. -/
def report (doing : String) (e : RunError) : String :=
  let causes :=
    match e.cause? with
    | none => [behind "    " e.message]
    | some cause => [behind "    0: " e.message, behind "    1: " cause.message]
  s!"Error: {doing}\n\nCaused by:\n" ++ "\n".intercalate causes ++ "\n"

/-! ## Texts of its own -/

/-- The line that tells the version. -/
def versionLine : String := s!"{programName} {programVersion}\n"

/-- The text that explains the command line. -/
def helpText : String :=
  "Embed shaders and images into generated Java sources\n\n" ++
  s!"Usage: {programName} [--json] [-v...] <COMMAND>\n\n" ++
  "Commands:\n" ++
  "  shaders  [-s DIR] [--build-mode MODE | --debug BOOL] DEST_DIR CLASSNAME\n" ++
  "  images   [-s DIR] [--crunch-dir DIR] DEST_DIR CLASSNAME\n" ++
  "  help     [COMMAND]\n"

/-- The wording of a refused command line. -/
def refusalText : Refusal → String
  | .help | .nothingGiven => helpText
  | .version => versionLine
  | .noCommand => "error: a command is required"
  | .badCommand => "error: there is no such command"
  | .unknownArgument => "error: unexpected argument"
  | .missingArgument => "error: an argument is missing"
  | .conflict => "error: arguments exclude each other"
  | .badValue => "error: a value is missing or not valid"
  | .surplusValue => "error: a value for an option that takes none"

/-- The end of a run whose command line is refused. -/
def refuse (r : Refusal) : Ending :=
  match r with
  | .help | .version => ⟨0, refusalText r, [], none⟩
  | _ => ⟨2, "", [], some (refusalText r)⟩

/-! ## Runs -/

variable {σ : Type} [Machine σ]

/-- What the task is to do, in words. -/
def purpose : Task → String
  | .shaders a => s!"generating {a.className} from {a.source.text}"
  | .images o => s!"generating {o.className} from {o.source.text}"

/-- Does the task. -/
def perform (env : ToolEnv) : Task → Job σ Outcome
  | .shaders a => Generate.shaders a.options
  | .images o => Generate.images o env none

/-- The end of a run whose task came to a result. -/
def conclude (r : Request) (x : Traced RunError Outcome) : Ending :=
  let entries := x.log.filter fun e => isLogged r.verbosity e.level
  match x.result with
  | .ok outcome => ⟨0, if r.asObject then outcome.object else outcome.text, entries, none⟩
  | .error e => ⟨1, "", entries, some (report (purpose r.task) e)⟩

/-- Runs the program with arguments, in an environment, on a machine. -/
def run (arguments : List String) (env : ToolEnv) (s : σ) : Ending × σ :=
  match CommandLine.parse arguments with
  | .error refusal => (refuse refusal, s)
  | .ok request =>
    let (x, s') := (perform env request.task).run s
    (conclude request x, s')

end AssetPack.Program
