import AssetPack.Config.Basic
import AssetPack.Text.EditDistance
import AssetPack.Text.Lines
import AssetPack.Text.Utf8

/-!
# Warnings about settings

A key that means nothing is not an error: it is reported with the first line that contains it and
with a known key that it may have been meant for.
-/

set_option autoImplicit false

namespace AssetPack

/-- A key that means nothing. -/
structure ConfigWarning where
  key : String
  file : Path
  line? : Option Nat
  suggestion? : Option String
  deriving DecidableEq, Repr

namespace ConfigWarning

/-- The wording of the warning. -/
def message (w : ConfigWarning) : String :=
  let line := (w.line?.map fun n => s!":{n}").getD ""
  let hint := (w.suggestion?.map fun s => s!" (did you mean '{s}'?)").getD ""
  s!"unknown key '{w.key}' in {w.file.text}{line}{hint}"

/-- The keys that mean something, in the order in which they are suggested. -/
def knownKeys : List String := ["shaders", "extensions", "images", "crunch_tool", "densities"]

/-- The edit distance of two keys, counted in bytes. -/
def distance (a b : String) : Nat :=
  Text.editDistance (Text.Utf8.encode a.toList) (Text.Utf8.encode b.toList)

/-- The first of the keys that are nearest to a key. -/
def nearest (key : String) (first : String) : List String → String
  | [] => first
  | k :: rest => nearest key (if distance key k < distance key first then k else first) rest

/-- A known key that is at most two changes away. -/
def suggest? (key : String) : Option String :=
  match knownKeys with
  | [] => none
  | k :: rest =>
    let best := nearest key k rest
    if distance key best ≤ 2 then some best else none

/-- Whether a text contains another. -/
def contains (needle : List Char) : List Char → Bool
  | [] => needle.isEmpty
  | c :: r => needle.isPrefixOf (c :: r) || contains needle r

/-- The number of the first line that contains a key. -/
def lineOf? (text : List Char) (key : String) : Option Nat :=
  ((Text.records text).findIdx? (contains key.toList)).map (· + 1)

/-- The warning for a key of a file's text. A dotted key is known by its last segment. -/
def ofKey (file : Path) (text : List Char) (key : String) : ConfigWarning :=
  let last := String.ofList ((Text.split '.' key.toList).getLastD [])
  { key := last, file, line? := lineOf? text last, suggestion? := suggest? last }

end ConfigWarning

end AssetPack
