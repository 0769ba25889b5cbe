import AssetPack.Text.Split

/-!
# Lines

`splitLf` cuts at every line feed and `joinLf` puts the lines back together. `records` is the
reading of a line-based file: a final line feed ends the last line instead of opening an empty
one, and a carriage return before a line feed belongs to the line end. `normalizeEnds` turns all
three spellings of a line end into one.
-/

set_option autoImplicit false

namespace AssetPack.Text

/-- The lines between line feeds; never none. -/
def splitLf (s : List Char) : List (List Char) := split '\n' s

/-- Lines with one line feed between neighbours. -/
def joinLf (lines : List (List Char)) : List Char := join '\n' lines

/-- A carriage return with a line feed, and one without, both become a line feed. -/
def normalizeEnds : List Char → List Char
  | [] => []
  | '\r' :: '\n' :: r => '\n' :: normalizeEnds r
  | '\r' :: r => '\n' :: normalizeEnds r
  | c :: r => c :: normalizeEnds r

/-- A line without the carriage return that ends it, if one does. -/
def dropFinalCr (line : List Char) : List Char :=
  match line.reverse with
  | '\r' :: r => r.reverse
  | _ => line

/-- The lines of a line-based file, read off the pieces between line feeds. The last piece is
what follows the last line feed: no line if it is empty, and a line without a line end, whose
carriage return is its own, if it is not. -/
def recordsOfPieces : List (List Char) → List (List Char)
  | [] => []
  | [last] => if last = [] then [] else [last]
  | line :: rest => dropFinalCr line :: recordsOfPieces rest

/-- The lines of a line-based file. -/
def records (s : List Char) : List (List Char) := recordsOfPieces (splitLf s)

end AssetPack.Text
