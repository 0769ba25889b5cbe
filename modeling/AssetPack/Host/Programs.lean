import AssetPack.Host.Files
import AssetPack.Host.Script

/-!
# The programs of the host

The few programs that scripts make use of: they print, copy, move and delete. Each works on a disk
with arguments and input, and gives the disk afterwards, what was written, and a status that is
zero if all went well. A program goes on with its other arguments after one that fails.
-/

set_option autoImplicit false

namespace AssetPack.Host

/-- The directory of the machine's own programs. -/
def Disk.programDir : Place := ["bin", "usr"]

/-- What was written, piece by piece. -/
abbrev Transcript : Type := List (Stream × List UInt8)

/-- What was written to one stream. -/
def Transcript.on (stream : Stream) (t : Transcript) : List UInt8 :=
  t.flatMap fun piece => if piece.1 = stream then piece.2 else []

/-- What a program leaves. -/
structure Ran where
  disk : Disk
  transcript : Transcript
  status : Nat

/-- A program, given a disk, arguments and input. -/
abbrev Program : Type := Disk → List String → List UInt8 → Ran

namespace Program

/-- The bytes of a text. -/
def bytes (s : String) : List UInt8 := Text.Utf8.encode s.toList

/-- An end without any effect. -/
def ends (status : Nat) : Program := fun d _ _ => ⟨d, [], status⟩

/-- An end with some output. -/
def prints (d : Disk) (output : List UInt8) : Ran := ⟨d, [(.output, output)], 0⟩

/-- An end with a complaint. -/
def complains (d : Disk) (name complaint : String) : Ran :=
  ⟨d, [(.errors, bytes s!"{name}: {complaint}\n")], 1⟩

/-- Does the same with one argument after the other. -/
def forEach (step : Disk → String → Ran) (d : Disk) : List String → Ran
  | [] => ⟨d, [], 0⟩
  | a :: rest =>
    let first := step d a
    let others := forEach step first.disk rest
    ⟨others.disk, first.transcript ++ others.transcript, max first.status others.status⟩

/-- The letters of the options, and the other arguments. -/
def options (arguments : List String) : List Char × List String :=
  let isOption (a : String) : Bool := a.toList.head? = some '-' && a ≠ "-"
  ((arguments.filter isOption).flatMap String.toList, arguments.filter fun a => !isOption a)

/-! ## Printing -/

/-- The octal digits at the front, of which three are one byte. -/
def octalDigits (s : List Char) : List Char :=
  (s.take 3).takeWhile fun c => '0' ≤ c && c ≤ '7'

/-- The byte that octal digits spell. -/
def octalByte (digits : List Char) : UInt8 :=
  (digits.foldl (fun n c => n * 8 + (c.toNat - '0'.toNat)) 0).toUInt8

/-- The byte that a letter after a backslash stands for. -/
def letterByte? : Char → Option UInt8
  | 'a' => some 7
  | 'b' => some 8
  | 't' => some 9
  | 'n' => some 10
  | 'v' => some 11
  | 'f' => some 12
  | 'r' => some 13
  | '\\' => some 92
  | _ => none

/-- A format with its arguments put in, and the arguments that are left. -/
def format (s : List Char) (arguments : List String) : List UInt8 × List String :=
  let after (output : List UInt8) (x : List UInt8 × List String) := (output ++ x.1, x.2)
  match s with
  | [] => ([], arguments)
  | '\\' :: r =>
    let digits := octalDigits r
    if digits ≠ [] then after [octalByte digits] (format (r.drop digits.length) arguments)
    else
      match r with
      | [] => ([92], arguments)
      | c :: r =>
        let output := ((letterByte? c).map ([·])).getD (92 :: Text.Utf8.encode [c])
        after output (format r arguments)
  | '%' :: '%' :: r => after [37] (format r arguments)
  | '%' :: 's' :: r => after (bytes (arguments.headD "")) (format r arguments.tail)
  | '%' :: 'd' :: r => after (bytes (arguments.headD "0")) (format r arguments.tail)
  | c :: r => after (Text.Utf8.encode [c]) (format r arguments)
termination_by s.length

/-- A format used until no arguments are left, at most `rounds` times. -/
def formatAll (rounds : Nat) (s : List Char) (arguments : List String) : List UInt8 :=
  let (output, left) := format s arguments
  match rounds with
  | 0 => output
  | rounds + 1 =>
    if left = [] ∨ left.length = arguments.length then output
    else output ++ formatAll rounds s left

/-- Prints a format with arguments put in. -/
def printf : Program := fun d arguments _ =>
  match arguments with
  | [] => complains d "printf" "missing operand"
  | f :: rest => prints d (formatAll rest.length f.toList rest)

/-- A text with its escapes replaced. -/
def unescape (s : List Char) : List UInt8 :=
  match s with
  | '\\' :: '0' :: r =>
    let digits := octalDigits r
    octalByte digits :: unescape (r.drop digits.length)
  | '\\' :: c :: r =>
    ((letterByte? c).map ([·])).getD (92 :: Text.Utf8.encode [c]) ++ unescape r
  | c :: r => Text.Utf8.encode [c] ++ unescape r
  | [] => []
termination_by s.length

/-- Prints its arguments on a line. -/
def echo : Program := fun d arguments _ =>
  let line (words : List String) := unescape (" ".intercalate words).toList
  match arguments with
  | "-n" :: words => prints d (line words)
  | words => prints d (line words ++ [10])

/-- Prints files, or its input. -/
def cat : Program := fun d arguments input =>
  let step (d : Disk) (a : String) : Ran :=
    if a = "-" then prints d input
    else
      match d.read ⟨a⟩ with
      | .ok content => prints d content
      | .error e => complains d "cat" s!"{a}: {e.words}"
  forEach step d (if arguments = [] then ["-"] else arguments)

/-- The last name in a path. -/
def lastName (p : String) : String := (Disk.names p).getLastD "/"

/-- The count in front of the paths, as `-n 3`, `-n3` or `-3`, or the usual one; whether it is of
bytes, not of lines; and the paths. -/
def readCount (usual : Nat) (arguments : List String) : Nat × Bool × List String :=
  let number (digits : List Char) : Nat := (String.ofList digits).toNat?.getD usual
  match arguments with
  | [] => (usual, false, [])
  | a :: rest =>
    match a.toList, rest with
    | ['-', c], n :: rest =>
      if c.isDigit then (number [c], false, n :: rest) else (number n.toList, c == 'c', rest)
    | '-' :: c :: digits, rest =>
      if c.isDigit then (number (c :: digits), false, rest) else (number digits, c == 'c', rest)
    | _, _ => (usual, false, arguments)

/-- The lines of some bytes, each with its line feed. -/
def byteLines : List UInt8 → List (List UInt8)
  | [] => []
  | b :: r =>
    if b = 10 then [b] :: byteLines r
    else
      match byteLines r with
      | [] => [[b]]
      | line :: lines => (b :: line) :: lines

/-- Prints part of each file, or of its input. -/
def printsPart (name : String) (part : List UInt8 → List UInt8) (d : Disk) (paths : List String)
    (input : List UInt8) : Ran :=
  let step (d : Disk) (a : String) : Ran :=
    match d.read ⟨a⟩ with
    | .ok content => prints d (part content)
    | .error e => complains d name s!"cannot open '{a}' for reading: {e.words}"
  if paths = [] then prints d (part input) else forEach step d paths

/-- Prints the first lines or bytes of a file. -/
def head : Program := fun d arguments input =>
  let (count, ofBytes, paths) := readCount 10 arguments
  let part (content : List UInt8) : List UInt8 :=
    if ofBytes then content.take count else ((byteLines content).take count).flatten
  printsPart "head" part d paths input

/-- Prints the last lines or bytes of a file. -/
def tail : Program := fun d arguments input =>
  let (count, ofBytes, paths) := readCount 10 arguments
  let last {α : Type} (xs : List α) : List α := xs.drop (xs.length - count)
  let part (content : List UInt8) : List UInt8 :=
    if ofBytes then last content else (last (byteLines content)).flatten
  printsPart "tail" part d paths input

/-- Prints the last name in a path, without an ending. -/
def basename : Program := fun d arguments _ =>
  match arguments with
  | [] => complains d "basename" "missing operand"
  | p :: rest =>
    let name := lastName p
    let ending := rest.headD ""
    let shorter := (ending.toList.isSuffixOf? name.toList).map String.ofList
    prints d (bytes ((if ending = name then name else shorter.getD name) ++ "\n"))

/-- Prints the directory of a path. -/
def dirname : Program := fun d arguments _ =>
  forEach (fun d p =>
    let up := ((Path.parent? ⟨p⟩).getD ⟨"/"⟩).text
    prints d (bytes ((if up = "" then "." else up) ++ "\n"))) d arguments

/-! ## Files -/

/-- The path of a name in a directory, or the path itself if it is no directory. -/
def inside (d : Disk) (target source : String) : String :=
  if d.isDir ⟨target⟩ then (Path.push ⟨target⟩ (lastName source)).text else target

/-- Copies everything at one place to another. -/
def copyTree (d : Disk) (source target : Place) : Disk :=
  d.entries.foldl (fun d (place, e) =>
    match source.isSuffixOf? place with
    | some rest => d.set (rest ++ target) e
    | none => d) d

/-- Copies a file, or with `whole` a directory, to a target. -/
def copy (whole : Bool) (target : String) (d : Disk) (source : String) : Ran :=
  let goal := inside d target source
  match d.find true ⟨source⟩ with
  | .error e => complains d "cp" s!"cannot stat '{source}': {e.words}"
  | .ok (place, .directory) =>
    if !whole then complains d "cp" s!"-r not specified; omitting directory '{source}'"
    else
      match d.resolve true ⟨goal⟩ with
      | .error e => complains d "cp" s!"cannot create directory '{goal}': {e.words}"
      | .ok place' => ⟨copyTree d place place', [], 0⟩
  | .ok (place, .file content executable) =>
    if (d.resolve true ⟨goal⟩).toOption = some place then
      complains d "cp" s!"'{source}' and '{goal}' are the same file"
    else if d.isDir ⟨goal⟩ then
      complains d "cp" s!"cannot overwrite directory '{goal}' with non-directory"
    else
      match d.overwrite ⟨goal⟩ content with
      | .error e => complains d "cp" s!"cannot create regular file '{goal}': {e.words}"
      | .ok d' =>
        if executable then ⟨(d'.makeExecutable ⟨goal⟩).toOption.getD d', [], 0⟩ else ⟨d', [], 0⟩
  | .ok (_, .link _) => complains d "cp" s!"cannot stat '{source}'"

/-- Copies files to a path or into a directory. -/
def cp : Program := fun d arguments _ =>
  let (letters, operands) := options arguments
  let whole := letters.any "rRa".toList.contains
  match operands.getLast?, operands.dropLast with
  | some target, source :: rest =>
    if rest ≠ [] && !d.isDir ⟨target⟩ then complains d "cp" s!"target '{target}': Not a directory"
    else forEach (copy whole target) d (source :: rest)
  | _, _ => complains d "cp" "missing file operand"

/-- Deletes files and, with `-r`, directories. -/
def rm : Program := fun d arguments _ =>
  let (letters, operands) := options arguments
  let step (d : Disk) (a : String) : Ran :=
    match d.find false ⟨a⟩ with
    | .error e =>
      if letters.contains 'f' then ⟨d, [], 0⟩
      else complains d "rm" s!"cannot remove '{a}': {e.words}"
    | .ok (_, e) =>
      if e = .directory && !letters.any "rR".toList.contains then
        complains d "rm" s!"cannot remove '{a}': Is a directory"
      else if [".", ".."].contains (lastName a) then
        complains d "rm" s!"refusing to remove '.' or '..' directory: skipping '{a}'"
      else
        match d.remove ⟨a⟩ with
        | (.ok (), d') => ⟨d', [], 0⟩
        | (.error e, d') => complains d' "rm" s!"cannot remove '{a}': {e.words}"
  forEach step d operands

/-- Moves files to a path or into a directory. -/
def mv : Program := fun d arguments _ =>
  let (_, operands) := options arguments
  match operands.getLast?, operands.dropLast with
  | some target, source :: rest =>
    let step (d : Disk) (a : String) : Ran :=
      match d.find false ⟨a⟩, d.resolve false ⟨inside d target a⟩ with
      | .ok (place, _), .ok place' =>
        if place = place' then
          complains d "mv" s!"'{a}' and '{inside d target a}' are the same file"
        else ⟨(copyTree d place place').erase place, [], 0⟩
      | .error e, _ => complains d "mv" s!"cannot stat '{a}': {e.words}"
      | _, .error e => complains d "mv" s!"cannot move '{a}' to '{target}': {e.words}"
    if rest ≠ [] && !d.isDir ⟨target⟩ then complains d "mv" s!"target '{target}': Not a directory"
    else forEach step d (source :: rest)
  | _, _ => complains d "mv" "missing file operand"

/-- Makes directories. -/
def mkdir : Program := fun d arguments _ =>
  let (letters, operands) := options arguments
  let step (d : Disk) (a : String) : Ran :=
    let (made, d') :=
      if letters.contains 'p' then d.makeDirs ⟨a⟩
      else
        match d.makeDir ⟨a⟩ with
        | .ok d' => (.ok (), d')
        | .error e => (.error e, d)
    match made with
    | .ok () => ⟨d', [], 0⟩
    | .error e => complains d' "mkdir" s!"cannot create directory '{a}': {e.words}"
  forEach step d operands

/-- Takes away empty directories. -/
def rmdir : Program := fun d arguments _ =>
  let step (d : Disk) (a : String) : Ran :=
    match d.removeDir ⟨a⟩ with
    | .ok d' => ⟨d', [], 0⟩
    | .error e => complains d "rmdir" s!"failed to remove '{a}': {e.words}"
  forEach step d (options arguments).2

/-- Makes links that hold a path. -/
def ln : Program := fun d arguments _ =>
  match (options arguments).2 with
  | [target, a] =>
    let place := inside d a target
    match d.link ⟨place⟩ target with
    | .ok d' => ⟨d', [], 0⟩
    | .error e => complains d "ln" s!"failed to create symbolic link '{place}': {e.words}"
  | _ => complains d "ln" "missing file operand"

/-- Makes files ones that can be run, or not. -/
def chmod : Program := fun d arguments _ =>
  let step (runs : Bool) (d : Disk) (a : String) : Ran :=
    match d.setExecutable runs ⟨a⟩ with
    | .ok d' => ⟨d', [], 0⟩
    | .error e => complains d "chmod" s!"cannot access '{a}': {e.words}"
  match arguments with
  | [] => complains d "chmod" "missing operand"
  | mode :: rest =>
    forEach (step (mode.toList.any "x1357".toList.contains && !mode.toList.contains '-')) d rest

/-- Makes files that are not there. -/
def touch : Program := fun d arguments _ =>
  let step (d : Disk) (a : String) : Ran :=
    if (d.find? ⟨a⟩).isSome then ⟨d, [], 0⟩
    else
      match d.overwrite ⟨a⟩ [] with
      | .ok d' => ⟨d', [], 0⟩
      | .error e => complains d "touch" s!"cannot touch '{a}': {e.words}"
  forEach step d arguments

/-- Prints the names in directories. -/
def ls : Program := fun d arguments _ =>
  let (_, operands) := options arguments
  let visible (name : String) : Bool := name.toList.head? ≠ some '.'
  let step (d : Disk) (a : String) : Ran :=
    match d.list (fun _ => true) ⟨a⟩ with
    | .ok names => prints d (bytes (String.join ((names.filter visible).map (· ++ "\n"))))
    | .error .notDirectory => prints d (bytes (a ++ "\n"))
    | .error e => { complains d "ls" s!"cannot access '{a}': {e.words}" with status := 2 }
  forEach step d (if operands = [] then ["."] else operands)

/-! ## Conditions -/

/-- Whether a condition holds. -/
def holds (d : Disk) : List String → Bool
  | [] => false
  | "!" :: rest => !holds d rest
  | [a] => a ≠ ""
  | ["-n", a] => a ≠ ""
  | ["-z", a] => a = ""
  | ["-e", a] => (d.find? ⟨a⟩).isSome
  | ["-f", a] => Disk.isFileEntry (d.find? ⟨a⟩)
  | ["-d", a] => d.isDir ⟨a⟩
  | ["-s", a] => (d.read ⟨a⟩).toOption.any (· ≠ [])
  | [a, "=", b] => a = b
  | [a, "!=", b] => a ≠ b
  | [a, "-eq", b] => a.toInt? = b.toInt?
  | [a, "-ne", b] => a.toInt? ≠ b.toInt?
  | [a, "-gt", b] => b.toInt?.getD 0 < a.toInt?.getD 0
  | [a, "-lt", b] => a.toInt?.getD 0 < b.toInt?.getD 0
  | [a, "-ge", b] => b.toInt?.getD 0 ≤ a.toInt?.getD 0
  | [a, "-le", b] => a.toInt?.getD 0 ≤ b.toInt?.getD 0
  | _ => false

/-- Ends well if its arguments are a condition that holds. -/
def test : Program := fun d arguments _ => ⟨d, [], if holds d arguments then 0 else 1⟩

/-- The same between brackets. -/
def bracket : Program := fun d arguments _ =>
  if arguments.getLast? = some "]" then test d arguments.dropLast []
  else ⟨d, [(.errors, bytes "[: missing ]\n")], 2⟩

/-! ## All programs -/

/-- The programs by their names. -/
def table : List (String × Program) :=
  [("true", ends 0), (":", ends 0), ("false", ends 1), ("sleep", ends 0), ("echo", echo),
   ("printf", printf), ("cat", cat), ("head", head), ("tail", tail), ("basename", basename),
   ("dirname", dirname), ("cp", cp), ("rm", rm), ("mv", mv), ("mkdir", mkdir), ("rmdir", rmdir),
   ("ln", ln), ("chmod", chmod), ("touch", touch), ("ls", ls), ("test", test), ("[", bracket)]

end Program

end AssetPack.Host
