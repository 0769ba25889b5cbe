import AssetPack.Text.Reader

/-!
# Strings of a configuration document

The four forms of TOML 1.0: double quotes with escapes or single quotes without, each on one line or,
with three quotes, over several. A string over several lines drops a line end right after its opening, takes
every line end as a line feed, and may have up to two quotes of its kind right before the closing
ones.
-/

set_option autoImplicit false

namespace AssetPack.Toml

/-- Characters that a line may hold: no control character but the tab. -/
def isLineChar (c : Char) : Bool :=
  c == '\t' || (' ' ≤ c && c ≤ '~') || '\x80' ≤ c

/-- The value of a hexadecimal digit. -/
def hexValue? (c : Char) : Option Nat :=
  if '0' ≤ c ∧ c ≤ '9' then some (c.toNat - '0'.toNat)
  else if 'a' ≤ c ∧ c ≤ 'f' then some (c.toNat - 'a'.toNat + 10)
  else if 'A' ≤ c ∧ c ≤ 'F' then some (c.toNat - 'A'.toNat + 10)
  else none

/-- The number that hexadecimal digits spell. -/
def hexNumber? (digits : List Char) : Option Nat :=
  digits.foldlM (fun n c => (hexValue? c).map (n * 16 + ·)) 0

/-- The character with the number that hexadecimal digits spell, if there is one. -/
def charOfHex? (digits : List Char) : Option Char := do
  let n ← hexNumber? digits
  if n.isValidChar then some (Char.ofNat n) else none

/-- The character that a letter after a backslash stands for. -/
def shortEscape? : Char → Option Char
  | 'b' => some '\x08'
  | 't' => some '\t'
  | 'n' => some '\n'
  | 'f' => some '\x0c'
  | 'r' => some '\r'
  | '"' => some '"'
  | '\\' => some '\\'
  | _ => none

/-- What follows a backslash: the character it stands for, and how many characters say so. -/
def readEscape : List Char → Option (Char × Nat)
  | 'u' :: a :: b :: c :: d :: _ => (charOfHex? [a, b, c, d]).map (·, 5)
  | 'U' :: a :: b :: c :: d :: e :: f :: g :: h :: _ =>
    (charOfHex? [a, b, c, d, e, f, g, h]).map (·, 9)
  | c :: _ => (shortEscape? c).map (·, 1)
  | [] => none

/-- Puts a character in front of what was read. -/
def prepend (c : Char) (x : List Char × List Char) : List Char × List Char := (c :: x.1, x.2)

/-- A string in double quotes, from behind the opening one. -/
def readBasic (s : List Char) : Option (List Char × List Char) :=
  match s with
  | [] => none
  | '"' :: r => some ([], r)
  | '\\' :: r =>
    match readEscape r with
    | some (c, n) => (readBasic (r.drop n)).map (prepend c)
    | none => none
  | c :: r => if isLineChar c then (readBasic r).map (prepend c) else none
termination_by s.length

/-- A string in single quotes, from behind the opening one. -/
def readLiteral : List Char → Option (List Char × List Char)
  | [] => none
  | '\'' :: r => some ([], r)
  | c :: r => if isLineChar c then (readLiteral r).map (prepend c) else none

/-! ## Over several lines -/

/-- The text behind its blanks and line ends. -/
def dropBlankLines : List Char → List Char
  | ' ' :: r => dropBlankLines r
  | '\t' :: r => dropBlankLines r
  | '\n' :: r => dropBlankLines r
  | '\r' :: '\n' :: r => dropBlankLines r
  | s => s

theorem length_dropBlankLines_le (s : List Char) : (dropBlankLines s).length ≤ s.length := by
  fun_induction dropBlankLines s <;> simp_all <;> omega

/-- Whether nothing but blanks stands before the next line end. -/
def atLineEnd (s : List Char) : Bool :=
  match s.dropWhile fun c => c == ' ' || c == '\t' with
  | '\n' :: _ => true
  | '\r' :: '\n' :: _ => true
  | _ => false

/-- A string in three double quotes, from behind the opening ones. A backslash at the end of a line
takes the line end and all blanks and line ends after it with it. -/
def readBasicLines (s : List Char) : Option (List Char × List Char) :=
  match s with
  | [] => none
  | '"' :: '"' :: '"' :: '"' :: '"' :: r => some (['"', '"'], r)
  | '"' :: '"' :: '"' :: '"' :: r => some (['"'], r)
  | '"' :: '"' :: '"' :: r => some ([], r)
  | '"' :: r => (readBasicLines r).map (prepend '"')
  | '\\' :: r =>
    if atLineEnd r then
      have := length_dropBlankLines_le r
      readBasicLines (dropBlankLines r)
    else
      match readEscape r with
      | some (c, n) => (readBasicLines (r.drop n)).map (prepend c)
      | none => none
  | '\n' :: r => (readBasicLines r).map (prepend '\n')
  | '\r' :: '\n' :: r => (readBasicLines r).map (prepend '\n')
  | c :: r => if isLineChar c then (readBasicLines r).map (prepend c) else none
termination_by s.length

/-- A string in three single quotes, from behind the opening ones. -/
def readLiteralLines : List Char → Option (List Char × List Char)
  | [] => none
  | '\'' :: '\'' :: '\'' :: '\'' :: '\'' :: r => some (['\'', '\''], r)
  | '\'' :: '\'' :: '\'' :: '\'' :: r => some (['\''], r)
  | '\'' :: '\'' :: '\'' :: r => some ([], r)
  | '\'' :: r => (readLiteralLines r).map (prepend '\'')
  | '\n' :: r => (readLiteralLines r).map (prepend '\n')
  | '\r' :: '\n' :: r => (readLiteralLines r).map (prepend '\n')
  | c :: r => if isLineChar c then (readLiteralLines r).map (prepend c) else none

/-- A text without a line end in front. -/
def dropLineEnd : List Char → List Char
  | '\n' :: r => r
  | '\r' :: '\n' :: r => r
  | s => s

/-- A string of any form. -/
def string : Reader (List Char)
  | '"' :: '"' :: '"' :: r => readBasicLines (dropLineEnd r)
  | '\'' :: '\'' :: '\'' :: r => readLiteralLines (dropLineEnd r)
  | '"' :: r => readBasic r
  | '\'' :: r => readLiteral r
  | _ => none

/-- A string on one line, as keys are written. -/
def lineString : Reader (List Char)
  | '"' :: r => readBasic r
  | '\'' :: r => readLiteral r
  | _ => none

end AssetPack.Toml
