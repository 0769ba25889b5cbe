import AssetPack.Text.Reader
import AssetPack.Text.Word

/-!
# Shell scripts

A small part of the command language that tools are wrapped in: commands with quoted words,
parameters, redirections and pipes, joined one after the other or by their success, choices and
loops over words. What it has means here what it means elsewhere; a script that uses anything else
cannot be read at all.

A word is a list of pieces, each quoted or not. What a piece stands for is known only when the
command runs; only then are unquoted pieces cut at blanks and matched against file names.
-/

set_option autoImplicit false

namespace AssetPack.Host

/-- The two streams that a program writes. -/
inductive Stream where
  | output
  | errors
  deriving DecidableEq, Repr

/-- Which part of a parameter's value is cut off. -/
inductive Cut where
  | shortestStart
  | longestStart
  | shortestEnd
  | longestEnd
  deriving DecidableEq, Repr

/-- What a part of a word stands for. -/
inductive Piece where
  | text (s : List Char)
  | parameter (name : String)
  | trimmed (name : String) (cut : Cut) (pattern : List Char)
  | result (script : List Char)
  deriving DecidableEq, Repr

/-- A part of a word. -/
structure WordPart where
  piece : Piece
  isQuoted : Bool
  deriving DecidableEq, Repr

/-- A word of a command. -/
abbrev Word : Type := List WordPart

/-- Where a stream is sent to, or taken from. -/
inductive Redirection where
  | toFile (stream : Stream) (appends : Bool) (file : Word)
  | toStream (stream target : Stream)
  | fromFile (file : Word)
  deriving DecidableEq, Repr

/-- A command, or several of them. Where a command that is not made of others stands is told by
how many lines end behind its beginning. -/
inductive Script where
  | done
  | command (behind : Nat) (assignments : List (String × Word)) (words : List Word)
      (redirections : List Redirection)
  | follow (first second : Script)
  | both (first second : Script)
  | either (first second : Script)
  | pipe (first second : Script)
  | negation (body : Script)
  | choice (test yes no : Script)
  | each (name : String) (words : List Word) (body : Script)
  | apart (body : Script)
  | redirected (body : Script) (redirections : List Redirection)
  deriving Repr

namespace Script

open Reader

/-! ## Words -/

/-- Whether a character ends an unquoted piece of text. -/
def isSpecial (c : Char) : Bool := " \t\n;&|<>()\\\"'$\x60".toList.contains c

/-- The text up to the parenthesis that closes an open one. -/
def closing (depth : Nat) : List Char → Option (List Char × List Char)
  | [] => none
  | c :: r =>
    let onward (depth : Nat) := (closing depth r).map fun (s, t) => (c :: s, t)
    if c = '(' then onward (depth + 1)
    else if c = ')' then
      match depth with
      | 0 => some ([], r)
      | depth + 1 => onward depth
    else onward depth

/-- The name of a parameter: a word, a digit or a sign. -/
def parameterName : Reader String := do
  let c ← next
  if c.isAlpha || c = '_' then
    return String.ofList (c :: (← Reader.takeWhile Text.isWordChar))
  else if c.isDigit || "@*#?$!".toList.contains c then return c.toString
  else refuse

/-- How a parameter in braces is cut. -/
def cutSign : Reader Cut :=
  (do exactly ['#', '#']; return .longestStart) <|> (do exactly ['#']; return .shortestStart) <|>
    (do exactly ['%', '%']; return .longestEnd) <|> (do exactly ['%']; return .shortestEnd)

/-- What follows a dollar sign. Alone it stands for itself. -/
def dollar : Reader Piece :=
  (do
    exactly ['\x7b']
    let name ← parameterName
    let piece ← (do
      let cut ← cutSign
      return Piece.trimmed name cut (← Reader.takeWhile (· != '\x7d'))) <|> pure (.parameter name)
    exactly ['\x7d']
    return piece) <|>
  (do exactly ['(']; return .result (← fun s => closing 0 s)) <|>
  (do return .parameter (← parameterName)) <|>
  pure (.text ['$'])

/-- A command whose result stands between two grave accents. -/
def graved : Reader Piece := do
  let script ← Reader.takeWhile (· != '\x60')
  exactly ['\x60']
  return .result script

/-- A piece between double quotes. -/
def innerPiece : Reader WordPart := do
  match ← next with
  | '"' => refuse
  | '$' => return ⟨← dollar, true⟩
  | '\x60' => return ⟨← graved, true⟩
  | '\\' =>
    let c ← next
    if c = '\n' then return ⟨.text [], true⟩
    else if "$\x60\"\\".toList.contains c then return ⟨.text [c], true⟩
    else return ⟨.text ['\\', c], true⟩
  | c => return ⟨.text [c], true⟩

/-- The next pieces of a word. -/
def pieces : Reader Word := do
  match ← next with
  | '\'' =>
    let s ← Reader.takeWhile (· != '\'')
    exactly ['\'']
    return [⟨.text s, true⟩]
  | '"' =>
    let inner ← many innerPiece
    exactly ['"']
    return ⟨.text [], true⟩ :: inner
  | '$' => return [⟨← dollar, false⟩]
  | '\x60' => return [⟨← graved, false⟩]
  | '\\' =>
    let c ← next
    return if c = '\n' then [] else [⟨.text [c], true⟩]
  | c =>
    if isSpecial c then refuse
    else return [⟨.text (c :: (← Reader.takeWhile fun c => !isSpecial c)), false⟩]

/-- Blanks, joined lines and comments between words. -/
def space : Reader Unit := do
  let _ ← many ((do let _ ← nextIf fun c => c == ' ' || c == '\t') <|> exactly ['\\', '\n'])
  let _ ← (do exactly ['#']; let _ ← Reader.takeWhile (· != '\n')) <|> pure ()

/-- A word. -/
def word : Reader Word := do
  let first ← pieces
  let rest ← many pieces
  space
  return (first :: rest).flatten

/-- The text of a word that is nothing but unquoted text. -/
def plainText? : Word → Option String
  | [⟨.text s, false⟩] => some (String.ofList s)
  | _ => none

/-- Words that begin or end a compound command. -/
def reserved : List String :=
  ["if", "then", "else", "elif", "fi", "for", "in", "do", "done", "\x7b", "\x7d", "!"]

/-- A given word. -/
def keyword (s : String) : Reader Unit := do
  if plainText? (← word) = some s then return () else refuse

/-- Nothing, where the next word is none of the reserved ones. -/
def notReserved : Reader Unit := fun s =>
  match word s with
  | none => some ((), s)
  | some (w, _) =>
    if (plainText? w).any reserved.contains then none else some ((), s)

/-! ## Commands -/

/-- A redirection. -/
def redirection : Reader Redirection := do
  let digit ← optional (nextIf fun c => c == '1' || c == '2')
  let stream (c : Char) : Stream := if c = '2' then .errors else .output
  let written := stream (digit.getD '1')
  (do
    exactly ['>', '&']
    let target ← nextIf fun c => c == '1' || c == '2'
    space
    return .toStream written (stream target)) <|>
  (do exactly ['>', '>']; space; return .toFile written true (← word)) <|>
  (do exactly ['>']; space; return .toFile written false (← word)) <|>
  (do exactly ['<']; space; return .fromFile (← word))

/-- An assignment. -/
def assignment : Reader (String × Word) := do
  let c ← nextIf fun c => c.isAlpha || c == '_'
  let rest ← Reader.takeWhile Text.isWordChar
  exactly ['=']
  let value ← many pieces
  space
  return (String.ofList (c :: rest), value.flatten)

/-- A word or a redirection of a command. -/
def part : Reader (Sum Redirection Word) :=
  (do return .inl (← redirection)) <|> (do return .inr (← word))

/-- How many lines end in what is left of the text. -/
def lineEnds : Reader Nat := fun s => some (s.count '\n', s)

/-- A command that is not made of others. -/
def simple : Reader Script := do
  notReserved
  let behind ← lineEnds
  let assignments ← many assignment
  let parts ← many part
  if assignments.isEmpty && parts.isEmpty then refuse
  return .command behind assignments
    (parts.filterMap fun | .inr w => some w | .inl _ => none)
    (parts.filterMap fun | .inl r => some r | .inr _ => none)

/-- Line feeds and semicolons between commands. -/
def separators : Reader Unit := do
  space
  let _ ← many do
    let _ ← nextIf fun c => c == '\n' || c == ';'
    space

/-- Line feeds after a sign that joins two commands. -/
def lineFeeds : Reader Unit := do
  space
  let _ ← many do
    exactly ['\n']
    space

mutual

/-- Commands as far as they go. -/
def sequence : Nat → Reader Script
  | 0 => refuse
  | depth + 1 => do
    separators
    (do
      let first ← joined depth
      let rest ← sequence depth
      return .follow first rest) <|> pure .done

/-- A command with those joined to it by their success. -/
def joined : Nat → Reader Script
  | 0 => refuse
  | depth + 1 => do
    let first ← piped depth
    joinedFrom depth first

/-- What is joined to a command. -/
def joinedFrom : Nat → Script → Reader Script
  | 0, _ => refuse
  | depth + 1, first =>
    (do
      exactly ['&', '&']
      lineFeeds
      let second ← piped depth
      joinedFrom depth (.both first second)) <|>
    (do
      exactly ['|', '|']
      lineFeeds
      let second ← piped depth
      joinedFrom depth (.either first second)) <|>
    pure first

/-- A command with those that take its output. -/
def piped : Nat → Reader Script
  | 0 => refuse
  | depth + 1 =>
    (do
      keyword "!"
      return .negation (← piped depth)) <|>
    (do
      let first ← single depth
      pipedFrom depth first)

/-- What takes the output of a command. -/
def pipedFrom : Nat → Script → Reader Script
  | 0, _ => refuse
  | depth + 1, first => fun s =>
    match s with
    | '|' :: '|' :: _ => some (first, s)
    | '|' :: r => (do
        lineFeeds
        let second ← single depth
        pipedFrom depth (.pipe first second) : Reader Script) r
    | _ => some (first, s)

/-- One command, made of others or not. -/
def single : Nat → Reader Script
  | 0 => refuse
  | depth + 1 => do
    let compound : Reader Script :=
      (do
        keyword "if"
        conditional depth) <|>
      (do
        keyword "for"
        loop depth) <|>
      (do
        keyword "\x7b"
        let body ← sequence depth
        keyword "\x7d"
        return body) <|>
      (do
        exactly ['(']
        let body ← sequence depth
        exactly [')']
        space
        return .apart body)
    (do
      let body ← compound
      let redirections ← many redirection
      return if redirections.isEmpty then body else .redirected body redirections) <|>
    simple

/-- A choice, behind its first word. -/
def conditional : Nat → Reader Script
  | 0 => refuse
  | depth + 1 => do
    let test ← sequence depth
    keyword "then"
    let yes ← sequence depth
    let no ← (do
        keyword "elif"
        conditional depth) <|>
      (do
        keyword "else"
        let no ← sequence depth
        keyword "fi"
        return no) <|>
      (do
        keyword "fi"
        return .done)
    return .choice test yes no

/-- A loop, behind its first word. -/
def loop : Nat → Reader Script
  | 0 => refuse
  | depth + 1 => do
    match plainText? (← word) with
    | none => refuse
    | some name =>
      let words ← (do
        keyword "in"
        many do
          notReserved
          word) <|> pure [[⟨.parameter "@", true⟩]]
      separators
      keyword "do"
      let body ← sequence depth
      keyword "done"
      return .each name words body

end

/-- The script that a text spells. A text has fewer commands than characters, so its length is
deep enough. -/
def parse? (text : List Char) : Option Script :=
  Reader.run? (sequence (4 * text.length + 8)) text

end Script

end AssetPack.Host
