import AssetPack.Ignore.Glob
import AssetPack.Text.Numeral

/-!
# Globs as regular expressions

A glob that does not spell its names out is matched by a regular expression over bytes, as the
library `globset` does it. `expression` writes that expression the way the library does, which shows
in the wording of a fault, and `nesting` counts how deep one thing stands in another there: an
expression that nests too deep is refused, and with it all globs of its file. Only braces can
bring that about, since every other part adds a few levels and no more.

Globs with an ending have an expression each. All others are tried together, and one that is
refused is then known by its number among them.
-/

set_option autoImplicit false

namespace AssetPack

namespace Glob

/-! ## How an expression is written -/

/-- The characters that mean something in an expression. -/
def isMeta (c : Char) : Bool := "\\.+*?()|[]\x7b\x7d^$#&-~".toList.contains c

/-- A byte as it stands in an expression. -/
def byteText (b : UInt8) : List Char :=
  if 0x7F < b then '\\' :: 'x' :: Text.digits 16 2 b.toNat
  else
    let c := Char.ofNat b.toNat
    if isMeta c then ['\\', c] else [c]

/-- A range of bytes as it stands in brackets. -/
def rangeText (low high : UInt8) : List Char :=
  if low = high then byteText low else byteText low ++ '-' :: byteText high

/-- What matches a glob. -/
def expression : Glob → List Char
  | .empty => []
  | .char c => (String.utf8EncodeChar c).flatMap byteText
  | .anyByte => "[^/]".toList
  | .anyRun => "[^/]*".toList
  | .leadingDirs => "(?:/?|.*/)".toList
  | .innerDirs => "(?:/|/.*/)".toList
  | .trailing => "/.*".toList
  | .anything => ".*".toList
  | .byteIn negated ranges =>
    '[' :: (if negated then ['^'] else []) ++
      ranges.flatMap (fun (low, high) => rangeText low high) ++ [']']
  | .seq first second => first.expression ++ second.expression
  | .either first second => first.expression ++ '|' :: second.expression
  | .group .empty => []
  | .group body => "(?:".toList ++ body.expression ++ [')']

/-- What matches the whole of a name. -/
def wholeExpression (g : Glob) : String :=
  String.ofList ("(?-u)^".toList ++ g.expression ++ ['$'])

/-! ## How deep it nests -/

/-- How many things stand one after the other in the expression. -/
def breadth : Glob → Nat
  | .empty | .group .empty => 0
  | .char c => (String.utf8EncodeChar c).length
  | .trailing => 2
  | .seq first second => first.breadth + second.breadth
  | _ => 1

/-- The levels of a branch, given those of the things in it. Several things in a row are a level,
and one is none. -/
def inRow (g : Glob) (levels : Nat) : Nat := if 2 ≤ g.breadth then levels + 1 else levels

/-- How deep the expression nests, not counting the row at its top. Repetition, brackets, several
ranges in them, a group and a choice are a level each. -/
def nesting : Glob → Nat
  | .empty | .char _ | .group .empty => 0
  | .anyByte | .trailing | .anything => 1
  | .anyRun => 2
  | .leadingDirs | .innerDirs => 4
  | .byteIn _ ranges => if 2 ≤ ranges.length then 2 else 1
  | .seq first second => max first.nesting second.nesting
  | .either first second => max (first.inRow first.nesting) (second.inRow second.nesting)
  | .group (.either first second) => (Glob.either first second).nesting + 2
  | .group body => body.inRow body.nesting + 1

/-- The most levels that an expression may have. -/
def maxNesting : Nat := 250

/-- Whether the expression of a glob is refused. It is a row with its beginning and its end. -/
def isTooDeep (g : Glob) : Bool := maxNesting < g.nesting + 1

end Glob

/-- An expression that nests too deep: that of a glob with an ending, or that of the given number
among the others. -/
inductive ExpressionFault where
  | alone (expression : String)
  | together (number : Nat)
  deriving DecidableEq, Repr

namespace ExpressionFault

/-- The wording of the fault. -/
def message : ExpressionFault → String
  | .alone expression => s!"error parsing glob '{expression}': error parsing pattern 0"
  | .together number => s!"error parsing pattern {number}"

/-- The fault among the expressions of globs, if there is one. Those with an ending come first. -/
def of? (globs : List Glob) : Option ExpressionFault :=
  match globs.find? fun g => g.hasEnding && g.isTooDeep with
  | some g => some (.alone g.wholeExpression)
  | none =>
    let others := globs.filter fun g => !g.isText && !g.hasEnding
    (others.findIdx? Glob.isTooDeep).map .together

end ExpressionFault

end AssetPack
