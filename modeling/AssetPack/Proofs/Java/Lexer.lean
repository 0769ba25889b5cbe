import AssetPack.Proofs.Text.Numerals

/-!
# How a compiler reads a string literal

A compiler of the target language reads in two phases. First it translates *numbered escapes*, all
over the source and whether or not they stand in a literal: a backslash with an even number of
backslashes right before it, one or more letters `u`, and four hexadecimal digits are one code
unit. Only then does it look for literals, in the code units that it has by then: a numbered
escape of a quote ends a literal just as a quote does, and a numbered escape of a line feed breaks
it. `translate` is the first phase and `readBody` the second.

What phase two sees is a list of `Glyph`s, code units that remember the text they were spelled by.
That is what lets `readLiteral` say how much of the source a literal takes up, and it loses
nothing (`flatMap_spelling_translate`). A numbered escape that is not well formed stops the
compiler; here it is a glyph of its own, so that a literal in front of it can still be read.

Text blocks, which newer compilers know and which open with three quotes, are no string literals
and not read here.
-/

set_option autoImplicit false

namespace AssetPack.Java.Lexer

open AssetPack.Text

/-- A character as the target language counts them: 16 bits. -/
abbrev CodeUnit : Type := UInt16

/-- The code unit of a character up to U+FFFF. -/
def unitOf (c : Char) : CodeUnit := c.toNat.toUInt16

/-- The code units of a character: one, or the two halves of a surrogate pair. -/
def units (c : Char) : List CodeUnit :=
  if c.toNat ≤ 0xFFFF then [unitOf c]
  else
    let n := c.toNat - 0x10000
    [(0xD800 + n / 0x400).toUInt16, (0xDC00 + n % 0x400).toUInt16]

/-! ## Phase one: numbered escapes -/

/-- What phase two reads: a code unit with the text that spells it, or an escape that is not well
formed with all the text from there on. -/
inductive Glyph where
  | unit (value : CodeUnit) (spelling : List Char)
  | malformed (text : List Char)
  deriving DecidableEq, Repr

namespace Glyph

/-- The text that the glyph stands for. -/
def spelling : Glyph → List Char
  | unit _ spelling => spelling
  | malformed text => text

/-- The code unit, if it is one. -/
def value? : Glyph → Option CodeUnit
  | unit value _ => some value
  | malformed _ => none

end Glyph

/-- The glyphs of a character that stands for itself. The whole character spells the first. -/
def plain (c : Char) : List Glyph :=
  match units c with
  | [] => []
  | first :: rest => .unit first [c] :: rest.map (.unit · [])

/-- The number of an escape and how many characters it takes behind its backslash, if marks and
digits are all there. -/
def numberedEscape? (s : List Char) : Option (Nat × Nat) :=
  let marks := s.takeWhile (· == 'u')
  let digits := (s.drop marks.length).take 4
  if marks ≠ [] ∧ digits.length = 4 then
    (numberOf? 16 digits).map fun n => (n, marks.length + 4)
  else none

/-- Phase one. `odd` says whether the number of backslashes right in front is odd, and `skip`
counts the characters that still belong to the escape before. -/
def translateFrom (odd : Bool) (skip : Nat) : List Char → List Glyph
  | [] => []
  | c :: r =>
    match skip with
    | k + 1 => translateFrom false k r
    | 0 =>
      if c = '\\' ∧ odd = false ∧ r.head? = some 'u' then
        match numberedEscape? r with
        | some (n, taken) => .unit n.toUInt16 (c :: r.take taken) :: translateFrom false taken r
        | none => [.malformed (c :: r)]
      else plain c ++ translateFrom (c = '\\' && !odd) 0 r

/-- What phase two reads for a source. -/
def translate (s : List Char) : List Glyph := translateFrom false 0 s

-- Three backslashes before the letter: two for themselves, and an escape. Two: no escape.
example : (translate "\\\\\\uu0041".toList).filterMap Glyph.value? = [0x5C, 0x5C, 0x41] := by
  decide
example : (translate "\\\\u0041".toList).all fun g => g.spelling.length = 1 := by decide

/-! ## Phase two: the literal -/

/-- The code unit that a short escape stands for, by its letter or mark. -/
def shortEscapes : List (CodeUnit × CodeUnit) :=
  [(unitOf 'b', 0x08), (unitOf 't', 0x09), (unitOf 'n', 0x0A), (unitOf 'f', 0x0C),
   (unitOf 'r', 0x0D), (unitOf '"', unitOf '"'), (unitOf '\'', unitOf '\''),
   (unitOf '\\', unitOf '\\')]

/-- The value of an octal digit. -/
def octal? (g : Glyph) : Option Nat :=
  g.value?.bind fun u => digitValue? 8 (Char.ofNat u.toNat)

/-- The number of an octal escape and its digits: up to three, and up to two where the first is
above three. -/
def readOctal (s : List Glyph) : Option (Nat × Nat) :=
  match s.map octal? with
  | some a :: some b :: some c :: _ =>
    if a ≤ 3 then some (a * 64 + b * 8 + c, 3) else some (a * 8 + b, 2)
  | some a :: some b :: _ => some (a * 8 + b, 2)
  | some a :: _ => some (a, 1)
  | _ => none

/-- What follows a backslash: the code unit it stands for and how many glyphs say so. -/
def readEscape (s : List Glyph) : Option (CodeUnit × Nat) :=
  match readOctal s with
  | some (n, taken) => some (n.toUInt16, taken)
  | none => do
    let u ← (← s.head?).value?
    return (← shortEscapes.lookup u, 1)

/-- A literal from behind its opening quote: its code units and what follows its closing one. A
line end within it, and a glyph that is no code unit, are no part of any literal. -/
def readBody (s : List Glyph) : Option (List CodeUnit × List Glyph) :=
  match s with
  | [] => none
  | .malformed _ :: _ => none
  | .unit u _ :: r =>
    if u = unitOf '"' then some ([], r)
    else if u = unitOf '\\' then
      match readEscape r with
      | some (v, taken) => (readBody (r.drop taken)).map fun x => (v :: x.1, x.2)
      | none => none
    else if u = unitOf '\n' ∨ u = unitOf '\r' then none
    else (readBody r).map fun x => (u :: x.1, x.2)
termination_by s.length

/-- The string literal that a source begins with: the code units of its value, and the source
that follows it. -/
def readLiteral (s : List Char) : Option (List CodeUnit × List Char) :=
  match translate s with
  | .unit u _ :: r =>
    if u = unitOf '"' then (readBody r).map fun x => (x.1, x.2.flatMap Glyph.spelling) else none
  | _ => none

/-! ## Nothing is lost -/

theorem flatMap_spelling_plain (c : Char) : (plain c).flatMap Glyph.spelling = [c] := by
  unfold plain
  cases h : units c with
  | nil =>
    unfold units at h
    split at h <;> simp at h
  | cons first rest => simp [List.flatMap_map, Glyph.spelling]

theorem flatMap_spelling_translateFrom (odd : Bool) (skip : Nat) (s : List Char) :
    (translateFrom odd skip s).flatMap Glyph.spelling = s.drop skip := by
  induction s generalizing odd skip with
  | nil => simp [translateFrom]
  | cons c r ih =>
    cases skip with
    | succ k => simpa [translateFrom] using ih false k
    | zero =>
      rw [translateFrom]
      split
      · cases h : numberedEscape? r with
        | none => simp [Glyph.spelling]
        | some x =>
          obtain ⟨n, taken⟩ := x
          simp [Glyph.spelling, ih]
      · simp [flatMap_spelling_plain, ih]

/-- Every character of a source belongs to just one glyph. -/
theorem flatMap_spelling_translate (s : List Char) :
    (translate s).flatMap Glyph.spelling = s :=
  flatMap_spelling_translateFrom false 0 s

end AssetPack.Java.Lexer
