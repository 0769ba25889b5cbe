/-!
# Edit distance

The least number of insertions, deletions and substitutions of single bytes that turn one byte
string into another. It is computed a row at a time: the row for a beginning of the first string
holds the distances from it to every beginning of the second.
-/

set_option autoImplicit false

namespace AssetPack.Text

/-- The rest of a row, given the byte that the row adds, the distance just found, the second
string from there on, and the row before from the same place on. -/
def extendRow (byte : UInt8) (left : Nat) : List UInt8 → List Nat → List Nat
  | b :: bs, diagonal :: above :: older =>
    let here := min (min (above + 1) (left + 1)) (diagonal + if byte = b then 0 else 1)
    here :: extendRow byte here bs (above :: older)
  | _, _ => []

/-- The row for one more byte of the first string. -/
def nextRow (second : List UInt8) (row : List Nat) (byte : UInt8) : List Nat :=
  let left := row.headD 0 + 1
  left :: extendRow byte left second row

/-- The row for a beginning without bytes: each beginning of the second string has to be
inserted. -/
def firstRow (second : List UInt8) : List Nat := List.range (second.length + 1)

/-- The edit distance of two byte strings. -/
def editDistance (first second : List UInt8) : Nat :=
  (first.foldl (nextRow second) (firstRow second)).getLastD 0

end AssetPack.Text
