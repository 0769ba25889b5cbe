/-!
# Globs

A glob describes names byte by byte. What each of its parts takes is what the documentation of
gitignore files says of it: a question mark one byte and a star any bytes, but neither of them a
slash; a bracket one byte of its ranges; two stars whole directories, in front (`leadingDirs`),
between two slashes (`innerDirs`) or behind one (`trailing`). A choice in braces is not in that
documentation. It is what the library `globset`, which compiles the globs of these files, adds to
them. No byte but the slash is special, not the line feed either.

Parts take their bytes off the front of what is left of a name: `rests` lists everything that can be
left, so a name fits if one of the rests is empty. Rests are tails of the name, of which there are
few, and every sequence forgets which way led to one; that keeps matching polynomial however many
stars a glob has.

One rule is about names and not about bytes, and is of the library and of no documentation. A name
has an *ending*, the last period of its last component with what follows, and globs that ask for one
are looked up by it. Two periods that are a whole component point to another directory and have no
ending, so such a glob fits no such name, not even where its parts would take every byte of it.
-/

set_option autoImplicit false

namespace AssetPack

/-- A description of names. -/
inductive Glob where
  /-- Nothing. -/
  | empty
  /-- The bytes of one character. -/
  | char (c : Char)
  /-- One byte that is no slash. -/
  | anyByte
  /-- Any bytes that are no slashes. -/
  | anyRun
  /-- Directories in front of a name, or none. -/
  | leadingDirs
  /-- A slash, or directories between two slashes. -/
  | innerDirs
  /-- A slash and all that follows. -/
  | trailing
  /-- Everything. -/
  | anything
  /-- One byte inside, or outside, of the given ranges. -/
  | byteIn (negated : Bool) (ranges : List (UInt8 × UInt8))
  /-- One part after the other. -/
  | seq (first second : Glob)
  /-- One part or the other. -/
  | either (first second : Glob)
  /-- What stands in braces, as one part. Braces around nothing hold nothing. -/
  | group (body : Glob)
  deriving DecidableEq, Repr

namespace Glob

/-- The slash as a byte. -/
def slash : UInt8 := 0x2F

/-! ## Matching -/

/-- The text and its tails, as far as all bytes in front of the tail pass. -/
def tailsWhile (pass : UInt8 → Bool) : List UInt8 → List (List UInt8)
  | [] => [[]]
  | b :: r => (b :: r) :: if pass b then tailsWhile pass r else []

/-- What stands behind a slash. -/
def tailsBehindSlash : List UInt8 → List (List UInt8)
  | [] => []
  | b :: r => if b = slash then r :: tailsBehindSlash r else tailsBehindSlash r

/-- Everything that can be left of a text after the glob has taken bytes off its front. -/
def rests : Glob → List UInt8 → List (List UInt8)
  | .empty, s => [s]
  | .char c, s => (String.utf8EncodeChar c |>.isPrefixOf? s).toList
  | .anyByte, s =>
    match s with
    | b :: r => if b = slash then [] else [r]
    | [] => []
  | .anyRun, s => tailsWhile (· != slash) s
  | .leadingDirs, s => s :: tailsBehindSlash s
  | .innerDirs, s =>
    match s with
    | b :: r => if b = slash then r :: tailsBehindSlash r else []
    | [] => []
  | .trailing, s =>
    match s with
    | b :: r => if b = slash then tailsWhile (fun _ => true) r else []
    | [] => []
  | .anything, s => tailsWhile (fun _ => true) s
  | .byteIn negated ranges, s =>
    match s with
    | b :: r =>
      if ranges.any (fun (low, high) => low ≤ b && b ≤ high) != negated then [r] else []
    | [] => []
  | .seq first second, s => ((first.rests s).flatMap second.rests).eraseDups
  | .either first second, s => first.rests s ++ second.rests s
  | .group body, s => body.rests s

/-! ## Endings -/

/-- The parts of a glob in front of others. -/
def partsOnto : Glob → List Glob → List Glob
  | .empty, rest => rest
  | .seq first second, rest => first.partsOnto (second :: rest)
  | g, rest => g :: rest

/-- The parts of a glob. A group is one of them. -/
def parts (g : Glob) : List Glob := g.partsOnto []

/-- Whether a glob is a character for which something holds. -/
def isChar (p : Char → Bool) : Glob → Bool
  | .char c => p c
  | _ => false

/-- Whether a glob spells its names out: characters, in any directory or in a given one. -/
def isText (g : Glob) : Bool :=
  match g.parts with
  | [] => false
  | .leadingDirs :: rest => rest ≠ [] && rest.all (isChar fun _ => true)
  | parts => parts.all (isChar fun _ => true)

/-- Whether a glob is about the last component alone, in whatever directory. -/
def isAboutLast (g : Glob) : Bool :=
  match g.parts with
  | .leadingDirs :: rest => !rest.any (isChar (· == '/'))
  | _ => false

/-- Whether the characters at the end of a glob are an ending. -/
def hasEnding (g : Glob) : Bool :=
  match g.parts.reverse.dropWhile (isChar fun c => c != '.' && c != '/') with
  | .char c :: _ => c == '.'
  | _ => false

/-- Whether a glob asks for an ending. One that spells out names with their directories compares
them as they are. -/
def asksForEnding (g : Glob) : Bool := g.hasEnding && (!g.isText || g.isAboutLast)

/-- Whether the last component of a name is two periods. -/
def isParent (name : List UInt8) : Bool :=
  match name.reverse with
  | 0x2E :: 0x2E :: up => up.head?.all (· == slash)
  | _ => false

/-- Whether the glob describes the whole of a name. -/
def fits (g : Glob) (name : List UInt8) : Bool :=
  (g.rests name).contains [] && !(isParent name && g.asksForEnding)

/-! ## Building -/

/-- One glob after the other, where nothing is added to nothing. -/
def append : Glob → Glob → Glob
  | .empty, g => g
  | g, .empty => g
  | g, h => .seq g h

/-- Globs one after the other. -/
def ofParts (parts : List Glob) : Glob := parts.foldl append .empty

/-- Whether a glob is written with nothing but braces. -/
def isBlank : Glob → Bool
  | .empty | .group .empty => true
  | .seq first second => first.isBlank && second.isBlank
  | _ => false

/-- A choice between globs. A branch that is blank is no choice, and no branch at all takes
nothing. -/
def choice (branches : List Glob) : Glob :=
  match branches.filter (!·.isBlank) with
  | [] => .group .empty
  | g :: rest => .group (rest.foldl .either g)

/-- The ranges of bytes for a range of characters. A character of several bytes adds each of them:
only its byte next to the range's dash takes part in the range. -/
def byteRanges (low high : Char) : List (UInt8 × UInt8) :=
  let single (b : UInt8) := (b, b)
  let lowBytes := String.utf8EncodeChar low
  let highBytes := String.utf8EncodeChar high
  if low = high then lowBytes.map single
  else
    match lowBytes.getLast?, highBytes with
    | some a, b :: rest => lowBytes.dropLast.map single ++ (a, b) :: rest.map single
    | _, _ => []

end Glob

end AssetPack
