import AssetPack.Glsl.Comment
import AssetPack.Glsl.Separator
import AssetPack.Text.Lines

/-!
# Minified shader text

The debug variant is the text with its comments blanked out and its lines trimmed at the end, so
that a compiler's line and column still point into the source. The release variant joins all code
between two directives into one line and keeps a space only where `needsSeparator` asks for one;
a directive keeps its line, and single spaces in it.

The two decisions about a space — inside a line (`dropSpaces`) and where two lines meet
(`joinCode`) — ask the same question of the same two characters. That is what makes the release
text independent of how the source was broken into lines.
-/

set_option autoImplicit false

namespace AssetPack.Glsl

open AssetPack.Text

/-! ## Inside one line -/

/-- Every run of linear blanks becomes one space. `inRun` says that the character before was a
linear blank, whose space is already written. -/
def collapseBlanks (inRun : Bool) : List Char → List Char
  | [] => []
  | c :: r =>
    if isLinearBlank c then
      if inRun then collapseBlanks true r else ' ' :: collapseBlanks true r
    else c :: collapseBlanks false r

/-- Drops each single space between two characters that need no separator. `left` is the
character before, in the line as it was given: neighbours of a single space are never spaces, so
each decision stands by itself. -/
def dropSpaces (left : Option Char) : List Char → List Char
  | [] => []
  | c :: r =>
    let rest := dropSpaces (some c) r
    match left, r with
    | some l, n :: _ =>
      if c == ' ' && l != ' ' && n != ' ' && !needsSeparator l n then rest else c :: rest
    | _, _ => c :: rest

/-- A line of the release variant before lines are joined. -/
inductive TidyLine where
  | directive (text : List Char)
  | code (text : List Char)
  deriving DecidableEq, Repr

/-- A directive loses the blanks before and after its `#`; code loses the blanks around it and
every space inside it that separates nothing. -/
def TidyLine.ofLine (line : List Char) : TidyLine :=
  match line.dropWhile isLinearBlank with
  | '#' :: r => .directive (collapseBlanks false ('#' :: r.dropWhile isLinearBlank))
  | _ => .code (dropSpaces none (trim (collapseBlanks false line)))

/-! ## Across lines -/

/-- Two stretches of code with a space between them if their meeting characters need one. -/
def joinCode (left right : List Char) : List Char :=
  match left.getLast?, right.head? with
  | some l, some r => if needsSeparator l r then left ++ ' ' :: right else left ++ right
  | _, _ => left ++ right

/-- The text of a line. -/
def TidyLine.text : TidyLine → List Char
  | .directive text => text
  | .code text => text

/-- The lines without empty code. `inCode` says that the line before was code. Code that begins
with `#`, which takes a blank that is not linear in front of it, counts as a directive unless it
continues other code. -/
def settleLines (inCode : Bool) : List TidyLine → List TidyLine
  | [] => []
  | .directive text :: rest => .directive text :: settleLines false rest
  | .code [] :: rest => settleLines inCode rest
  | .code (c :: text) :: rest =>
    if c = '#' && !inCode then .directive (c :: text) :: settleLines false rest
    else .code (c :: text) :: settleLines true rest

/-- Lines with a line of code in front, which goes into the first one if that is code too. -/
def consCode (text : List Char) : List TidyLine → List TidyLine
  | .code next :: rest => .code (joinCode text next) :: rest
  | lines => .code text :: lines

/-- The lines with each run of code in one line. -/
def joinLines : List TidyLine → List TidyLine
  | [] => []
  | .directive text :: rest => .directive text :: joinLines rest
  | .code text :: rest => consCode text (joinLines rest)

/-- Release form of a text without comments. -/
def compress (s : List Char) : List Char :=
  let lines := joinLines (settleLines false ((splitLf s).map TidyLine.ofLine))
  joinLf ((lines.map fun line => trimWith (· == ' ') line.text).filter (· ≠ []))

/-- Each line without the blanks at its end. -/
def trimLines (s : List Char) : List Char :=
  joinLf ((splitLf s).map trimEnd)

/-- The text of a shader as it is embedded. -/
def minify (v : Variant) (source : List Char) : List Char :=
  let stripped := stripComments v (normalizeEnds source)
  match v with
  | .debug => trimLines stripped
  | .release => compress stripped

end AssetPack.Glsl
