import AssetPack.Error
import AssetPack.Host.Expansion

/-!
# Running scripts

A shell runs the commands of a script on a disk, one after the other. Commands that stand apart
share the disk and the streams with the others, but not variables. The shell goes on until it has
ended: by itself, by a command that fails where that is not asked for, or by a signal. What it
complains about it complains about with its name and the line where the command stands.
-/

set_option autoImplicit false

namespace AssetPack.Host

/-- The state of a running script. The line is the one that is run, and `lastLine` the one behind
all line ends of the text that is run. -/
structure Shell where
  disk : Disk
  name : String
  line : Nat
  lastLine : Nat
  arguments : List String
  bindings : List (String × String)
  input : List UInt8
  transcript : Transcript
  status : Nat
  stopsOnError : Bool
  ended? : Option ExitStatus

namespace Shell

/-- A shell before its first command. -/
def start (d : Disk) (name : String) (arguments : List String) (stopsOnError : Bool) : Shell where
  disk := d
  name
  line := 1
  lastLine := 1
  arguments
  bindings := []
  input := []
  transcript := []
  status := 0
  stopsOnError
  ended? := none

/-- The number by which a shell is known. -/
def processId : String := "4242"

/-- The state after more was written. -/
def write (sh : Shell) (more : Transcript) : Shell :=
  { sh with transcript := sh.transcript ++ more }

/-- The state after a complaint, with a status. -/
def complain (sh : Shell) (status : Nat) (complaint : String) : Shell :=
  { sh.write [(.errors, Program.bytes s!"{sh.name}: {sh.line}: {complaint}\n")] with status }

/-- The value of a parameter. -/
def value (sh : Shell) (name : String) : String :=
  if name = "#" then toString sh.arguments.length
  else if name = "?" then toString sh.status
  else if name = "$" then processId
  else if name = "@" ∨ name = "*" then " ".intercalate sh.arguments
  else if name = "0" then sh.name
  else
    match name.toNat? with
    | some n => sh.arguments.getD (n - 1) ""
    | none => (sh.bindings.lookup name).getD ""

/-- The state with a variable set. -/
def assign (sh : Shell) (name value : String) : Shell :=
  { sh with bindings := (name, value) :: sh.bindings.filter fun v => v.1 ≠ name }

/-- The result of commands that stand apart: what they did to the disk and wrote, with everything
else as it was before. A signal ends the whole script. -/
def rejoin (before after : Shell) : Shell :=
  match after.ended? with
  | some (.signal n name) => { before with
      disk := after.disk, transcript := after.transcript, ended? := some (.signal n name) }
  | some (.code n) => { before with
      disk := { after.disk with here := before.disk.here }, transcript := after.transcript,
      status := n }
  | none => { before with
      disk := { after.disk with here := before.disk.here }, transcript := after.transcript,
      status := after.status }

/-- Runs something with nothing written yet, and gives that what it wrote. -/
def capture (run : Shell → Shell) (sh : Shell) : Shell × Transcript :=
  let after := run { sh with transcript := [] }
  ({ after with transcript := sh.transcript }, after.transcript)

/-! ## Words -/

/-- How a script that stands in a word is run. -/
abbrev Inner : Type := List Char → Shell → Shell

/-- The output of a script that stands in a word, without line feeds at its end. -/
def result (inner : Inner) (script : List Char) (sh : Shell) : Shell × List Char :=
  let (after, written) := sh.capture (inner script)
  let text := Text.Utf8.decodeLossy (written.on .output)
  (rejoin sh (after.write (written.filter (·.1 = .errors))), Text.trimEndWith (· == '\n') text)

/-- Adds what a part of a word stands for. -/
def expandPart (inner : Inner) (state : Shell × Fields) (part : WordPart) : Shell × Fields :=
  let (sh, fields) := state
  let add (value : List Char) : Fields :=
    if part.isQuoted then fields.extend (Field.ofText true value) else fields.extendCut value
  match part.piece with
  | .text s => (sh, fields.extend (Field.ofText part.isQuoted s))
  | .parameter name =>
    if name = "@" && part.isQuoted then (sh, fields.extendEach sh.arguments)
    else (sh, add (sh.value name).toList)
  | .trimmed name cut pattern => (sh, add (cut.apply pattern (sh.value name).toList))
  | .result script =>
    let (sh, value) := sh.result inner script
    (sh, add value)

/-- The arguments that words become. -/
def expand (inner : Inner) (words : List Word) (sh : Shell) : Shell × List String :=
  words.foldl (fun (sh, arguments) word =>
    let (sh, fields) := word.foldl (expandPart inner) (sh, Fields.none)
    (sh, arguments ++ fields.close.whole.flatMap (Field.arguments sh.disk))) (sh, [])

/-- The text that a word becomes where it cannot become several arguments. -/
def expandText (inner : Inner) (word : Word) (sh : Shell) : Shell × String :=
  let (sh, fields) := word.foldl (expandPart inner) (sh, Fields.none)
  (sh, " ".intercalate (fields.close.whole.map Field.text))

/-! ## Redirections -/

/-- Where a stream goes. -/
inductive Route where
  | stream (s : Stream)
  | file (path : String)

/-- Where both streams go. -/
structure Routes where
  output : Route
  errors : Route

namespace Routes

/-- Each stream where it is. -/
def straight : Routes := ⟨.stream .output, .stream .errors⟩

/-- The route of a stream. -/
def of (r : Routes) : Stream → Route
  | .output => r.output
  | .errors => r.errors

/-- The routes with another one for a stream. -/
def set (r : Routes) (s : Stream) (route : Route) : Routes :=
  match s with
  | .output => { r with output := route }
  | .errors => { r with errors := route }

end Routes

/-- The file that takes everything and holds nothing. -/
def nullFile : String := "/dev/null"

/-- Sends something along the routes. -/
def send (routes : Routes) (sh : Shell) (piece : Stream × List UInt8) : Shell :=
  match routes.of piece.1 with
  | .stream s => sh.write [(s, piece.2)]
  | .file path =>
    if path = nullFile then sh
    else
      let before := (sh.disk.read ⟨path⟩).toOption.getD []
      { sh with disk := (sh.disk.put ⟨path⟩ (before ++ piece.2)).2 }

/-- The shell's own words for a path that leads nowhere, and the system's for anything else. -/
def wordsOr (missing : String) : SystemError → String
  | .noSuchFile | .notDirectory => missing
  | e => e.words

/-- Opens what a redirection names; nothing if that fails. -/
def redirect (inner : Inner) (state : Shell × Option Routes) (r : Redirection) :
    Shell × Option Routes :=
  match state with
  | (sh, none) => (sh, none)
  | (sh, some routes) =>
    match r with
    | .toStream s target => (sh, some (routes.set s (routes.of target)))
    | .toFile s appends word =>
      let (sh, path) := sh.expandText inner word
      let opened : Except SystemError Disk :=
        if path = nullFile then .ok sh.disk
        else
          let old := if appends then (sh.disk.read ⟨path⟩).toOption.getD [] else []
          sh.disk.overwrite ⟨path⟩ old
      match opened with
      | .ok disk => ({ sh with disk }, some (routes.set s (.file path)))
      | .error e =>
        let words := wordsOr "Directory nonexistent" e
        (sh.complain 2 s!"cannot create {path}: {words}", none)
    | .fromFile word =>
      let (sh, path) := sh.expandText inner word
      match if path = nullFile then .ok [] else sh.disk.read ⟨path⟩ with
      | .ok input => ({ sh with input }, some routes)
      | .error e =>
        let words := wordsOr "No such file" e
        (sh.complain 2 s!"cannot open {path}: {words}", none)

/-- Runs something with its streams redirected. -/
def withRedirections (inner : Inner) (rs : List Redirection) (run : Shell → Shell) (sh : Shell) :
    Shell :=
  match rs.foldl (redirect inner) (sh, some .straight) with
  | (sh', none) => { sh' with input := sh.input }
  | (sh', some routes) =>
    let (after, written) := sh'.capture run
    { written.foldl (send routes) after with input := sh.input }

/-! ## Commands -/

/-- The signals that a script may send to itself. -/
def signals : List (String × Nat) :=
  [("HUP", 1), ("INT", 2), ("QUIT", 3), ("ILL", 4), ("TRAP", 5), ("ABRT", 6), ("BUS", 7),
   ("FPE", 8), ("KILL", 9), ("USR1", 10), ("SEGV", 11), ("USR2", 12), ("PIPE", 13), ("ALRM", 14),
   ("TERM", 15), ("XCPU", 24), ("XFSZ", 25), ("VTALRM", 26), ("PROF", 27), ("SYS", 31)]

/-- The signal of a name or number. -/
def signal? (s : String) : Option ExitStatus :=
  let fits (entry : String × Nat) : Bool :=
    s = entry.1 || s = "SIG" ++ entry.1 || s = toString entry.2
  (signals.find? fits).map fun (name, n) => .signal n ("SIG" ++ name)

/-- Sends a signal, which only this shell can receive. -/
def kill (arguments : List String) (sh : Shell) : Shell :=
  let name :=
    match arguments with
    | "-s" :: name :: _ => name
    | a :: _ => if a.toList.head? = some '-' then String.ofList a.toList.tail else "TERM"
    | [] => ""
  match signal? name with
  | some status =>
    if arguments.getLast? = some processId then { sh with ended? := some status }
    else sh.complain 1 "kill: No such process"
  | none => sh.complain 2 "kill: invalid signal"

/-- Changes how the shell goes on after errors, the only option that means something here. -/
def setOptions (sh : Shell) : List String → Shell
  | [] => { sh with status := 0 }
  | a :: rest =>
    let stops := sh.stopsOnError
    match a.toList with
    | '-' :: letters => setOptions { sh with stopsOnError := stops || letters.contains 'e' } rest
    | '+' :: letters => setOptions { sh with stopsOnError := stops && !letters.contains 'e' } rest
    | _ => { sh with arguments := a :: rest, status := 0 }

/-- Ends the script with a status, of which only the lowest byte is left. -/
def exit (arguments : List String) (sh : Shell) : Shell :=
  let finish (sh : Shell) (status : Nat) : Shell :=
    { sh with status := status % 256, ended? := some (.code (status % 256)) }
  match arguments with
  | [] => finish sh sh.status
  | a :: _ =>
    if a ≠ "" && a.toList.all Char.isDigit then finish sh (a.toNat?.getD 0)
    else finish (sh.complain 2 s!"exit: Illegal number: {a}") 2

/-- Goes to another directory. -/
def changeDir (arguments : List String) (sh : Shell) : Shell :=
  let path := arguments.headD "/"
  match sh.disk.find true ⟨path⟩ with
  | .ok (place, .directory) => { sh with disk := { sh.disk with here := place }, status := 0 }
  | _ => sh.complain 2 s!"cd: can't cd to {path}"

/-- Runs one of the machine's programs. -/
def runOwn (program : Program) (arguments : List String) (sh : Shell) : Shell :=
  let ran := program sh.disk arguments sh.input
  { sh.write ran.transcript with disk := ran.disk, status := ran.status }

/-- Runs a script that stands on the disk, in a shell of its own. -/
def runFile (inner : Inner) (path : String) (bytes : List UInt8) (arguments : List String)
    (sh : Shell) : Shell :=
  let own := { start sh.disk path arguments false with input := sh.input }
  let after := inner (Text.Utf8.decodeLossy bytes) own
  rejoin sh { after with transcript := sh.transcript ++ after.transcript }

/-- Runs a program by its name, or by its path if that has a slash. -/
def runProgram (inner : Inner) (name : String) (arguments : List String) (sh : Shell) : Shell :=
  let notFound := sh.complain 127 s!"{name}: not found"
  let byName (name : String) :=
    ((Program.table.lookup name).map fun p => sh.runOwn p arguments).getD notFound
  if !name.toList.contains '/' then byName name
  else
    match sh.disk.find true ⟨name⟩ with
    | .error e =>
      let status := if [.noSuchFile, .notDirectory].contains e then 127 else 126
      let words := wordsOr "not found" e
      sh.complain status s!"{name}: {words}"
    | .ok (place, .file bytes true) =>
      if place.tail = Disk.programDir then byName (Program.lastName name)
      else sh.runFile inner name bytes arguments
    | .ok _ => sh.complain 126 s!"{name}: Permission denied"

/-- Passes arguments over. -/
def shift (arguments : List String) (sh : Shell) : Shell :=
  let count := (arguments.head?.bind String.toNat?).getD 1
  if count ≤ sh.arguments.length then
    { sh with arguments := sh.arguments.drop count, status := 0 }
  else
    let sh := sh.complain 2 "shift: can't shift that many"
    { sh with ended? := some (.code 2) }

/-- Hands variables on to other programs, and sets those that come with a value. -/
def handOn (arguments : List String) (sh : Shell) : Shell :=
  arguments.foldl (fun sh a =>
    match (a.toList.dropWhile (· != '=')).tail? with
    | some value => sh.assign (String.ofList (a.toList.takeWhile (· != '='))) (String.ofList value)
    | none => sh) { sh with status := 0 }

/-- Runs a command with its arguments. -/
def runCommand (inner : Inner) (sh : Shell) : List String → Shell
  | [] => { sh with status := 0 }
  | name :: arguments =>
    if name = "exit" then sh.exit arguments
    else if name = "set" then sh.setOptions arguments
    else if name = "kill" then sh.kill arguments
    else if name = "cd" then sh.changeDir arguments
    else if name = "shift" then sh.shift arguments
    else if name = "export" then sh.handOn arguments
    else if name = "unset" then
      { sh with bindings := sh.bindings.filter fun b => !arguments.contains b.1, status := 0 }
    else if name = "exec" then
      match arguments with
      | [] => { sh with status := 0 }
      | program :: rest => (sh.runProgram inner program rest).exit []
    else sh.runProgram inner name arguments

/-- Assigns variables. -/
def assignAll (inner : Inner) (assignments : List (String × Word)) (sh : Shell) : Shell :=
  assignments.foldl (fun sh (name, word) =>
    let (sh, value) := sh.expandText inner word
    sh.assign name value) sh

/-- Runs a command whose words are not known yet. -/
def runSimple (inner : Inner) (assignments : List (String × Word)) (words : List Word)
    (rs : List Redirection) (sh : Shell) : Shell :=
  let (sh, arguments) := sh.expand inner words
  let sh := if arguments = [] then assignAll inner assignments { sh with status := 0 } else sh
  withRedirections inner rs
    (fun sh => if arguments = [] then sh else sh.runCommand inner arguments) sh

/-- Ends the script after a failure, unless the failure is looked at. -/
def stop (isLookedAt : Bool) (sh : Shell) : Shell :=
  if sh.stopsOnError && !isLookedAt && sh.status ≠ 0 && sh.ended?.isNone then sh.exit [] else sh

/-! ## Scripts -/

/-- Goes on unless the script has ended. -/
def andThen (run : Shell → Shell) (sh : Shell) : Shell := if sh.ended?.isSome then sh else run sh

/-- Runs a script. A failure that decides what is run next is one that is looked at. -/
def runScript (inner : Inner) (isLookedAt : Bool) : Script → Shell → Shell
  | .done, sh => sh
  | .command behind assignments words rs, sh =>
    (runSimple inner assignments words rs { sh with line := sh.lastLine - behind }).stop isLookedAt
  | .follow first second, sh =>
    (runScript inner isLookedAt first sh).andThen (runScript inner isLookedAt second)
  | .both first second, sh =>
    (runScript inner true first sh).andThen fun sh =>
      if sh.status = 0 then runScript inner isLookedAt second sh else sh
  | .either first second, sh =>
    (runScript inner true first sh).andThen fun sh =>
      if sh.status = 0 then sh else runScript inner isLookedAt second sh
  | .pipe first second, sh =>
    let (before, written) := sh.capture fun sh => rejoin sh (runScript inner true first sh)
    let before := before.write (written.filter (·.1 = .errors))
    let after := runScript inner isLookedAt second { before with input := written.on .output }
    (rejoin sh after).stop isLookedAt
  | .negation body, sh =>
    (runScript inner true body sh).andThen fun sh =>
      { sh with status := if sh.status = 0 then 1 else 0 }
  | .choice test yes no, sh =>
    (runScript inner true test sh).andThen fun sh =>
      if sh.status = 0 then runScript inner isLookedAt yes sh
      else runScript inner isLookedAt no { sh with status := 0 }
  | .each name words body, sh =>
    let (sh, values) := sh.expand inner words
    values.foldl (fun sh value =>
      sh.andThen fun sh => runScript inner isLookedAt body (sh.assign name value))
      { sh with status := 0 }
  | .apart body, sh => (rejoin sh (runScript inner isLookedAt body sh)).stop isLookedAt
  | .redirected body rs, sh => withRedirections inner rs (runScript inner isLookedAt body) sh

/-- Runs the text of a script, in which scripts stand in words at most so deep. -/
def runText : Nat → List Char → Shell → Shell
  | 0, _, sh => sh
  | depth + 1, text, sh =>
    match Script.parse? text with
    | none => sh.complain 2 "Syntax error"
    | some script =>
      runScript (runText depth) false script { sh with lastLine := sh.line + text.count '\n' }

/-- How the script ended. -/
def exitStatus (sh : Shell) : ExitStatus := sh.ended?.getD (.code sh.status)

end Shell

end AssetPack.Host
