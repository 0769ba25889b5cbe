import AssetPack.CommandLine.Options

/-!
# Reading a command line

Arguments are read from left to right, and the first one that cannot be read decides how the line
is refused. A value is looked at late: it is *held* until the next argument that is understood,
or the end, and only then found to be bad or to be given twice. So an unknown argument wins over a
bad value right before it, and the help option does not.

What has to do with several arguments, that one excludes another or that one is missing, is looked
at in the end.
-/

set_option autoImplicit false

namespace AssetPack.CommandLine

/-! ## Arguments -/

/-- What a value can be given for. -/
inductive Slot where
  | source
  | buildMode
  | debug
  | crunchDir
  | destination
  | className
  deriving DecidableEq, Repr

/-- Whether a value can be taken. -/
def Slot.accepts : Slot → String → Bool
  | .source, v | .crunchDir, v | .destination, v => v ≠ ""
  | .buildMode, v => (BuildMode.ofWord? v).isSome
  | .debug, v => v = "true" || v = "false"
  | .className, _ => true

/-- An option without a value. -/
inductive Flag where
  | json
  | verbose
  | help
  | version
  deriving DecidableEq, Repr

/-- What an option means. -/
inductive Meaning where
  | flag (f : Flag)
  | slot (s : Slot)
  deriving DecidableEq, Repr

/-- The options that may stand at some place of the line. -/
structure Grammar where
  words : List (String × Meaning)
  letters : List (Char × Meaning)

namespace Grammar

/-- The options that may stand anywhere. -/
def everywhere : Grammar where
  words := [("json", .flag .json), ("verbose", .flag .verbose), ("help", .flag .help)]
  letters := [('v', .flag .verbose), ('h', .flag .help)]

/-- The options of both grammars. -/
def also (g h : Grammar) : Grammar := ⟨g.words ++ h.words, g.letters ++ h.letters⟩

/-- The options before the command. -/
def beforeCommand : Grammar :=
  everywhere.also ⟨[("version", .flag .version)], [('V', .flag .version)]⟩

/-- The option for the source directory. -/
def source : Grammar := ⟨[("source", .slot .source)], [('s', .slot .source)]⟩

/-- The options of the command for shaders. -/
def shaders : Grammar :=
  (everywhere.also source).also ⟨[("build-mode", .slot .buildMode), ("debug", .slot .debug)], []⟩

/-- The options of the command for images. -/
def images : Grammar :=
  (everywhere.also source).also ⟨[("crunch-dir", .slot .crunchDir)], []⟩

end Grammar

/-! ## What was given so far -/

/-- A slot whose value is not looked at yet, or not there yet. -/
structure Held where
  slot : Slot
  value? : Option String
  deriving DecidableEq, Repr

/-- What was given so far at one place of the line. -/
structure Given where
  json : Bool
  verbosity? : Option Nat
  values : List (Slot × String)
  held? : Option Held
  deriving DecidableEq, Repr

/-- Reading goes on, or the line is refused. -/
abbrev Reading := Except Refusal

namespace Given

/-- Nothing. -/
def nothing : Given := ⟨false, none, [], none⟩

/-- Whether anything was given. -/
def isAnything (g : Given) : Bool := g.json || g.verbosity?.isSome

/-- The value of a slot. -/
def value? (g : Given) (s : Slot) : Option String := g.values.lookup s

/-- The largest count of the option for verbosity. -/
def maxVerbosity : Nat := 255

/-- Looks at the value that is held. -/
def settle (g : Given) : Reading Given :=
  match g.held? with
  | none => .ok g
  | some ⟨_, none⟩ => .error .badValue
  | some ⟨s, some v⟩ =>
    if (g.value? s).isSome then .error .conflict
    else if !s.accepts v then .error .badValue
    else .ok { g with values := g.values ++ [(s, v)], held? := none }

/-- Holds a slot whose value may be there already. -/
def hold (g : Given) (slot : Slot) (value? : Option String) : Reading Given := do
  return { ← g.settle with held? := some ⟨slot, value?⟩ }

/-- Takes a value that is part of its option, and looks at it at once. -/
def attach (g : Given) (s : Slot) (v : String) : Reading Given := do
  (← g.hold s (some v)).settle

/-- Takes an option without a value. The one for verbosity counts; the one for the object may be
given once at each place. -/
def raise (g : Given) (f : Flag) : Reading Given := do
  let g ← g.settle
  match f with
  | .json => if g.json then throw .conflict else return { g with json := true }
  | .verbose => return { g with verbosity? := some (min maxVerbosity (g.verbosity?.getD 0 + 1)) }
  | .help => throw .help
  | .version => throw .version

/-- Takes an option that is spelled in full, what follows its dashes being given. -/
def takeWord (grammar : Grammar) (g : Given) (text : List Char) : Reading Given :=
  let name := String.ofList (text.takeWhile (· != '='))
  let value? := (text.dropWhile (· != '=')).tail?.map String.ofList
  match grammar.words.lookup name, value? with
  | none, _ => .error .unknownArgument
  | some (.flag _), some _ => .error .surplusValue
  | some (.flag f), none => g.raise f
  | some (.slot s), some v => g.attach s v
  | some (.slot s), none => g.hold s none

/-- Takes options of one letter each, up to one with a value, which takes the other letters. -/
def takeLetters (grammar : Grammar) (g : Given) : List Char → Reading Given
  | [] => .ok g
  | c :: r =>
    match grammar.letters.lookup c with
    | none => .error .unknownArgument
    | some (.flag f) => do takeLetters grammar (← g.raise f) r
    | some (.slot s) =>
      match r with
      | [] => g.hold s none
      | '=' :: v => g.attach s (String.ofList v)
      | v => g.attach s (String.ofList v)

/-- Takes an argument that is an option; nothing if it is none. A lone dash is none. -/
def takeOption (grammar : Grammar) (g : Given) (argument : String) : Option (Reading Given) :=
  match argument.toList with
  | '-' :: '-' :: text => some (g.takeWord grammar text)
  | '-' :: c :: r => some (g.takeLetters grammar (c :: r))
  | _ => none

/-- Takes an argument that stands by itself, as the first slot that has none yet. -/
def takePositional (g : Given) (slots : List Slot) (argument : String) :
    Reading (Given × List Slot) :=
  match slots with
  | [] => .error .unknownArgument
  | s :: rest => do return (← g.hold s (some argument), rest)

end Given

/-! ## Commands -/

/-- Reads the arguments of a command; `slots` are those that stand by themselves. After two dashes
all arguments do. -/
def readArguments (grammar : Grammar) (onlySlots : Bool) (slots : List Slot) (g : Given) :
    List String → Reading Given
  | [] => g.settle
  | a :: rest =>
    let positional : Reading Given := do
      let (g, slots) ← g.takePositional slots a
      readArguments grammar onlySlots slots g rest
    if onlySlots then positional
    else if a = "--" then readArguments grammar true slots g rest
    else
      match g.takeOption grammar a, g.held? with
      | some taken, _ => do readArguments grammar false slots (← taken) rest
      | none, some ⟨s, none⟩ =>
        readArguments grammar false slots { g with held? := some ⟨s, some a⟩ } rest
      | none, _ => positional

/-- The arguments that stand by themselves. -/
def positionals : List Slot := [.destination, .className]

/-- A value that has to be there. -/
def require (g : Given) (s : Slot) : Reading String :=
  match g.value? s with
  | some v => .ok v
  | none => .error .missingArgument

/-- The source directory, which is the current one if none is given. -/
def sourceOf (g : Given) : Path := ⟨(g.value? .source).getD "."⟩

/-- The task that the arguments of the command for shaders spell. -/
def shaderTask (g : Given) : Reading Task := do
  if (g.value? .debug).isSome && (g.value? .buildMode).isSome then throw .conflict
  let destination ← require g .destination
  let className ← require g .className
  return .shaders {
    source := sourceOf g
    destination := ⟨destination⟩
    className
    buildMode := ((g.value? .buildMode).bind BuildMode.ofWord?).getD .undetermined
    debug? := (g.value? .debug).map (· == "true") }

/-- The task that the arguments of the command for images spell. -/
def imageTask (g : Given) : Reading Task := do
  let destination ← require g .destination
  let className ← require g .className
  return .images {
    source := sourceOf g
    destination := ⟨destination⟩
    className
    scratch? := (g.value? .crunchDir).map Path.mk }

/-- A command: its name, its options, and the task that its arguments spell. -/
structure CommandForm where
  name : String
  grammar : Grammar
  task : Given → Reading Task

/-- The commands. -/
def commands : List CommandForm :=
  [⟨"shaders", .shaders, shaderTask⟩, ⟨"images", .images, imageTask⟩]

/-- Reads a command, behind its name. What is given behind it about the output replaces what was
given before it. -/
def readCommand (c : CommandForm) (before : Given) (arguments : List String) : Reading Request := do
  let g ← readArguments c.grammar false positionals .nothing arguments
  return {
    task := ← c.task g
    asObject := before.json || g.json
    verbosity := (g.verbosity?.or before.verbosity?).getD 0 }

/-! ## The whole line -/

/-- The name of the command that explains another. -/
def helpName : String := "help"

/-- Whether a word is the name of a command, the one that explains others among them. -/
def isCommandName (a : String) : Bool := a = helpName || commands.any (·.name = a)

/-- How a request for help is answered, behind its command's name. -/
def helpRefusal : List String → Refusal
  | [] => .help
  | [a] => if isCommandName a then .help else .badCommand
  | _ => .badCommand

/-- How a line without a command is refused. -/
def withoutCommand (g : Given) : Refusal := if g.isAnything then .noCommand else .nothingGiven

/-- How a line is refused that has two dashes before its command. What follows them is no option
and no command: the name of a command does not belong there, and nothing else is one. -/
def refuseDashes (g : Given) : List String → Refusal
  | [] => withoutCommand g
  | a :: _ => if isCommandName a then .unknownArgument else .badCommand

/-- Reads a line up to its command, and then the command. -/
def readLine (g : Given) : List String → Reading Request
  | [] => .error (withoutCommand g)
  | a :: rest =>
    match commands.find? (·.name = a) with
    | some c => readCommand c g rest
    | none =>
      if a = helpName then .error (helpRefusal rest)
      else if a = "--" then .error (refuseDashes g rest)
      else
        match g.takeOption .beforeCommand a with
        | some taken => do readLine (← taken) rest
        | none => .error .badCommand

/-- What the arguments of the program ask for. -/
def parse (arguments : List String) : Except Refusal Request := readLine .nothing arguments

end AssetPack.CommandLine
