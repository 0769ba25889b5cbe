import AssetPack.Text.Word

/-!
# Identifiers of assets

An asset is known by its file name with every character that is no word character replaced by an
underscore. The replacement is all there is to it: case is kept, so names that differ in case stay
apart, and different marks become the same underscore, so names that differ in marks meet.

Generated members are named after the identifier in mixed case (`camelCase`), which drops the
underscores and with them the last trace of where words ended.
-/

set_option autoImplicit false

namespace AssetPack

/-- A name made of word characters. -/
structure Identifier where
  name : String
  isWord : ∀ c ∈ name.toList, Text.isWordChar c = true
  deriving DecidableEq

namespace Identifier

theorem eq_of_name_eq {i j : Identifier} (h : i.name = j.name) : i = j := by
  cases i
  cases j
  cases h
  rfl

/-- A character, or the underscore in its place. -/
def sanitizeChar (c : Char) : Char := if c.isAlphanum then c else '_'

theorem isWordChar_sanitizeChar (c : Char) : Text.isWordChar (sanitizeChar c) = true := by
  unfold sanitizeChar
  split
  · rename_i h; simp [Text.isWordChar, h]
  · rfl

/-- The identifier for a file name. -/
def sanitize (raw : String) : Identifier where
  name := String.ofList (raw.toList.map sanitizeChar)
  isWord := by
    intro c hc
    rw [String.toList_ofList] at hc
    obtain ⟨a, -, rfl⟩ := List.mem_map.mp hc
    exact isWordChar_sanitizeChar a

/-! ## Mixed case -/

/-- Each letter after a letter in lower case, and each other letter in upper case. -/
def titleCase (afterLetter : Bool) : List Char → List Char
  | [] => []
  | c :: r =>
    let c' := if !c.isAlpha then c else if afterLetter then c.toLower else c.toUpper
    c' :: titleCase c.isAlpha r

/-- The first word as it is, the others in title case, without the underscores. -/
def camelCase (s : List Char) : List Char :=
  let first := s.takeWhile (· != '_')
  let others := s.dropWhile (· != '_')
  first ++ (titleCase false others).filter (· != '_')

/-- The name of the member that caches the asset. -/
def fieldName (i : Identifier) : String :=
  String.ofList (camelCase i.name.toList)

/-- The name of the method that gives the asset. -/
def accessorName (i : Identifier) : String :=
  String.ofList (camelCase ("get_".toList ++ i.name.toList))

end Identifier

end AssetPack
