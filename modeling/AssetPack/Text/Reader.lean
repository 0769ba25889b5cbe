/-!
# Readers

A reader takes a value off the front of a text, or refuses. Readers are put together with `do`;
`many` repeats one and stops where it refuses, so that what comes next decides whether that was
the right place to stop. A repetition that takes nothing would never end: it is a refusal.
-/

set_option autoImplicit false

namespace AssetPack

/-- A way to read a value off the front of a text. -/
abbrev Reader := StateT (List Char) Option

namespace Reader

variable {α : Type}

/-- Refuses every text. -/
def refuse : Reader α := fun _ => none

/-- The next character, which stays where it is. -/
def peek? : Reader (Option Char) := fun s => some (s.head?, s)

/-- The next character. -/
def next : Reader Char
  | [] => none
  | c :: r => some (c, r)

/-- The next character, if it passes. -/
def nextIf (pass : Char → Bool) : Reader Char
  | [] => none
  | c :: r => if pass c then some (c, r) else none

/-- Takes exactly this text. -/
def exactly (t : List Char) : Reader Unit := fun s => (t.isPrefixOf? s).map ((), ·)

/-- As many characters as pass. -/
def takeWhile (pass : Char → Bool) : Reader (List Char) :=
  fun s => some (s.takeWhile pass, s.dropWhile pass)

/-- Nothing, at the end of the text only. -/
def atEnd : Reader Unit
  | [] => some ((), [])
  | _ :: _ => none

/-- The values of a reader taken again and again. -/
def many (p : Reader α) : Reader (List α) := fun s =>
  match p s with
  | none => some ([], s)
  | some (a, r) =>
    if r.length < s.length then (many p r).map fun (rest, t) => (a :: rest, t) else none
termination_by s => s.length

/-- The value for the whole of a text. -/
def run? (p : Reader α) (s : List Char) : Option α :=
  match p s with
  | some (a, []) => some a
  | _ => none

end Reader

end AssetPack
