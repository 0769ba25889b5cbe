/-!
# Templates

Text with named places: a name between two pairs of braces. `fill` puts a value at every place of
one name, and `fillAll` does so for one name after the other, each time over the whole text.
-/

set_option autoImplicit false

namespace AssetPack.Template

/-- The text with every occurrence of `pattern` replaced, from the left and without overlaps.
`skip` counts the characters that still belong to an occurrence just replaced. -/
def replaceFrom (pattern value : List Char) (skip : Nat) : List Char → List Char
  | [] => []
  | c :: r =>
    match skip with
    | k + 1 => replaceFrom pattern value k r
    | 0 =>
      if pattern.isPrefixOf (c :: r) then value ++ replaceFrom pattern value (pattern.length - 1) r
      else c :: replaceFrom pattern value 0 r

/-- A place of the given name. -/
def place (name : String) : List Char :=
  '\x7b' :: '\x7b' :: name.toList ++ ['\x7d', '\x7d']

/-- The text with a value at every place of one name. -/
def fill (text : List Char) (name : String) (value : List Char) : List Char :=
  replaceFrom (place name) value 0 text

/-- The text with the values of several names, one name after the other. -/
def fillAll (text : List Char) (values : List (String × List Char)) : List Char :=
  values.foldl (fun t v => fill t v.1 v.2) text

end AssetPack.Template
