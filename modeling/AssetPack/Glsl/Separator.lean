import AssetPack.Text.Word

/-!
# Where a space must stay

A space between two characters may go only if the two, standing next to each other, cannot be
read as one token. `needsSeparator` decides that from the two characters alone, and errs on the
side of keeping the space: two characters of a word or number, a digit beside a point, and every
pair in `protectedPairs`.
-/

set_option autoImplicit false

namespace AssetPack.Glsl

/-- Pairs that spell a two-character operator or a comment delimiter. -/
def protectedPairs : List (Char × Char) :=
  [('+', '+'), ('-', '-'), ('<', '<'), ('>', '>'), ('<', '='), ('>', '='), ('=', '='),
   ('!', '='), ('&', '&'), ('^', '^'), ('|', '|'), ('+', '='), ('-', '='), ('^', '='),
   ('/', '='), ('%', '='), ('&', '='), ('|', '='), ('/', '/'), ('/', '*'), ('*', '/')]

/-- Whether a point and its neighbour could become one number: `1 .` and `. 2`, but also the
exponent and suffix letters in `1. e3` and `1. f`. -/
def joinsNumber (left right : Char) : Bool :=
  (left.isDigit && right == '.') ||
    (left == '.' && (right.isDigit || right == 'e' || right == 'f'))

/-- Whether a single space between the two characters has to be kept. -/
def needsSeparator (left right : Char) : Bool :=
  (Text.isWordChar left && Text.isWordChar right) || joinsNumber left right ||
    protectedPairs.contains (left, right)

end AssetPack.Glsl
