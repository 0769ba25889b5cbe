import AssetPack.Text.Numeral
import AssetPack.Text.Unprintable

/-!
# Quoted text

Text as it stands inside a record: in double quotes, on one line, and readable back. Quotes and
backslashes take a backslash, four control characters have short forms, and every other character
that would not be seen is written by its number.
-/

set_option autoImplicit false

namespace AssetPack.Text.Quoted

/-- One character as it stands between the quotes. -/
def escape (c : Char) : List Char :=
  if c = '"' then ['\\', '"']
  else if c = '\\' then ['\\', '\\']
  else if c = '\t' then ['\\', 't']
  else if c = '\n' then ['\\', 'n']
  else if c = '\r' then ['\\', 'r']
  else if c = '\x00' then ['\\', '0']
  else if isUnprintable c then '\\' :: 'u' :: '\x7b' :: digits 16 1 c.toNat ++ ['\x7d']
  else [c]

/-- A text in quotes. -/
def encode (s : List Char) : List Char :=
  '"' :: s.flatMap escape ++ ['"']

end AssetPack.Text.Quoted
