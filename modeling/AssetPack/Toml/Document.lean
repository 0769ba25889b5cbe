import AssetPack.Toml.Numbers
import AssetPack.Toml.Strings

/-!
# Configuration documents

The format is TOML 1.0. A document is read in two steps. The first takes the text apart into
statements, by the grammar of that format: headers, and keys with values, one on a line. The second
puts the statements together to a table, and refuses those that the format calls invalid because
they say something twice or add to a closed table.

Values may be nested, and keys may be dotted, to a fixed depth. The format has no such bound; this
is the one of the library `toml`, whose reading of the format is followed here. Reading a value is a
recursion on the depth that is left.
-/

set_option autoImplicit false

namespace AssetPack.Toml

open Reader

/-- A header or a key with its value. -/
inductive Statement where
  | header (path : List String)
  | arrayHeader (path : List String)
  | pair (path : List String) (key : String) (value : Value)

/-! ## Blanks and comments -/

/-- Spaces and tabs. -/
def blanks : Reader Unit := do
  let _ ← takeWhile fun c => c == ' ' || c == '\t'

/-- A line end. -/
def lineEnd : Reader Unit := exactly ['\n'] <|> exactly ['\r', '\n']

/-- A comment, up to the end of its line. -/
def comment : Reader Unit := do
  exactly ['#']
  let _ ← takeWhile isLineChar

/-- What may stand behind a statement: blanks, a comment and a line end. -/
def restOfLine : Reader Unit := do
  blanks
  let _ ← optional comment
  lineEnd <|> atEnd

/-- What may stand between the values of an array: blanks, line ends, and comments with the line
ends behind them. -/
def gap : Reader Unit := do
  let _ ← many do
    match ← peek? with
    | some '#' => comment; lineEnd
    | some ' ' | some '\t' => blanks
    | _ => lineEnd

/-! ## Keys -/

/-- The most segments and levels of nesting. -/
def maxDepth : Nat := 79

/-- One segment of a key. -/
def keySegment : Reader String := do
  match ← peek? with
  | some '"' | some '\'' => return String.ofList (← lineString)
  | _ =>
    match ← takeWhile fun c => c.isAlphanum || c == '-' || c == '_' with
    | [] => refuse
    | cs => return String.ofList cs

/-- A key, as the path to its last segment and that segment. -/
def key : Reader (List String × String) := do
  blanks
  let first ← keySegment
  blanks
  let others ← many do
    exactly ['.']
    blanks
    let segment ← keySegment
    blanks
    return segment
  let segments := first :: others
  if segments.length > maxDepth then refuse
  return (segments.dropLast, segments.getLastD first)

/-! ## Values -/

/-- A key with its value, given how values are read. -/
def pairWith (value : Reader Value) : Reader (List String × String × Value) := do
  let (path, last) ← key
  exactly ['=']
  blanks
  let v ← value
  return (path, last, v)

/-- An array, given how its values are read. A comma may follow the last one. -/
def arrayOf (value : Reader Value) : Reader Value := do
  exactly ['[']
  let items ← many do
    gap
    let v ← value
    gap
    let comma ← optional (exactly [','])
    return (v, comma.isSome)
  gap
  exactly [']']
  if items.dropLast.all Prod.snd then return .array (items.map Prod.fst) else refuse

/-- A table in braces, given how its values are read. It stands on one line, and no comma follows
the last pair. -/
def bracesOf (value : Reader Value) : Reader Value := do
  exactly ['\x7b']
  blanks
  let pair := do
    let p ← pairWith value
    blanks
    return p
  let pairs ← optional pair
  let others ← match pairs with
    | none => pure []
    | some _ => many do exactly [',']; pair
  blanks
  exactly ['\x7d']
  let putPair (es : Entries) : List String × String × Value → Option Entries
    | (path, last, v) => es.put path last v
  match (pairs.toList ++ others).foldlM putPair [] with
  | some es => return .table .braces es
  | none => refuse

/-- A value with at most `depth` levels of nesting. -/
def value (depth : Nat) : Reader Value := do
  match ← peek? with
  | some '"' | some '\'' => return .string (String.ofList (← string))
  | some '[' =>
    match depth with
    | 0 => refuse
    | depth + 1 => arrayOf (value depth)
  | some '\x7b' =>
    match depth with
    | 0 => refuse
    | depth + 1 => bracesOf (value depth)
  | some 't' => exactly "true".toList; return .boolean true
  | some 'f' => exactly "false".toList; return .boolean false
  | some 'i' | some 'n' => specialFloat
  | _ => number

/-! ## Statements -/

/-- A header in the given brackets. -/
def headerIn (opening closing : List Char) : Reader (List String) := do
  exactly opening
  let (path, last) ← key
  exactly closing
  restOfLine
  return path ++ [last]

/-- What stands on one line: a statement, a comment, or nothing. -/
def line : Reader (Option Statement) := do
  blanks
  match ← peek? with
  | none => refuse
  | some '\n' | some '\r' => lineEnd; return none
  | some '#' => comment; (lineEnd <|> atEnd); return none
  | some '[' =>
    (do return some (.arrayHeader (← headerIn ['[', '['] [']', ']']))) <|>
      (do return some (.header (← headerIn ['['] [']'])))
  | _ => do
    let (path, last, v) ← pairWith (value maxDepth)
    restOfLine
    return some (.pair path last v)

/-- The statements of a text. A byte order mark may stand in front. -/
def statements : Reader (List Statement) := do
  let _ ← optional (exactly ['\ufeff'])
  let lines ← many line
  blanks
  atEnd
  return lines.filterMap id

/-! ## Assembly -/

/-- A document under construction: what is finished, and the table that the last header opened
with the place where it will stand. -/
structure Draft where
  root : Entries
  opened : Entries
  place : List String
  isArray : Bool

namespace Draft

/-- Before the first statement. The top table is open. -/
def start : Draft := ⟨[], [], [], false⟩

/-- Puts a table where its header said. -/
def store (opened : Entries) (isArray : Bool) (last : String) (_ : TableKind) (es : Entries) :
    Option (Entries × Unit) :=
  match es.lookup last, isArray with
  | some (.tables items), true => some (es.set last (.tables (items ++ [opened])), ())
  | none, false => some (es ++ [(last, .table .header opened)], ())
  | _, _ => none

/-- Puts the open table where its header said. -/
def close (d : Draft) : Option Entries :=
  match d.place.getLast? with
  | none => some d.opened
  | some last => do
    let (root, ()) ← updateAt false (store d.opened d.isArray last) d.place.dropLast .header d.root
    return root

/-- Makes room for a table of the given name. A table that was only implied so far is taken up,
and moves to the end of its own table; one that was written is not opened again. -/
def openTable (last : String) (_ : TableKind) (es : Entries) : Option (Entries × Entries) :=
  match es.lookup last with
  | none => some (es, [])
  | some (.table .implied inner) => some (es.filter fun e => e.1 ≠ last, inner)
  | some _ => none

/-- Makes room for one more of several tables of the given name. -/
def openArray (last : String) (_ : TableKind) (es : Entries) : Option (Entries × Entries) :=
  match es.lookup last with
  | none => some (es ++ [(last, .tables [])], [])
  | some (.tables _) => some (es, [])
  | some _ => none

/-- Opens the table of a header. -/
def openAt (d : Draft) (isArray : Bool) (path : List String) : Option Draft := do
  let root ← d.close
  let last ← path.getLast?
  let make := if isArray then openArray last else openTable last
  let (root, opened) ← updateAt false make path.dropLast .header root
  return ⟨root, opened, path, isArray⟩

/-- The document after one more statement. -/
def add (d : Draft) : Statement → Option Draft
  | .header path => d.openAt false path
  | .arrayHeader path => d.openAt true path
  | .pair path last v => do
    let opened ← Entries.put d.opened path last v
    return { d with opened }

end Draft

/-- The table that a text spells, if it is a document. -/
def parse? (text : List Char) : Option Entries := do
  let parts ← statements.run? text
  let draft ← parts.foldlM Draft.add Draft.start
  draft.close

end AssetPack.Toml
