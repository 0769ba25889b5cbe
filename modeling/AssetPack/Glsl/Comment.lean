import AssetPack.Text.Blank

/-!
# Comments — what is one, and what stands in its place

Shader text is cut into *pieces*: characters that are kept, and whole comments. A line comment
runs up to the line feed and leaves it; a block comment runs through the first `*/` after its
opener, and an opener that nothing closes is ordinary text. Quotes hide comment markers on
directive lines only, since the language has no string literals elsewhere.

Whether a line is a directive line is read off the text *as it is written out*, not as it stood
in the source: the two variants write a block comment differently (`Piece.written`), so a block
comment with a line feed in it can end a directive line in one variant and not in the other.
`LineKind` carries just what that decision needs of the line written so far.
-/

set_option autoImplicit false

namespace AssetPack.Glsl

/-- The two forms in which a shader is embedded: `debug` keeps every line and column where it
was, `release` is as short as the token rules allow. -/
inductive Variant where
  | debug
  | release
  deriving DecidableEq, Repr

/-- A stretch of source text: a kept character, or a comment with both its delimiters. -/
inductive Piece where
  | kept (c : Char)
  | comment (text : List Char)
  deriving DecidableEq, Repr

/-- What is written for a piece. The debug variant blanks a comment out and leaves its line
feeds; the release variant leaves one space, so that the neighbours stay apart. -/
def Piece.written (v : Variant) : Piece → List Char
  | .kept c => [c]
  | .comment text =>
    match v with
    | .debug => text.map fun c => if c == '\n' then '\n' else ' '
    | .release => [' ']

/-! ## The line written so far -/

/-- A line so far: nothing but linear blanks, a directive (its first other character is `#`), or
anything else. -/
inductive LineKind where
  | blank
  | directive
  | code
  deriving DecidableEq, Repr

/-- The kind of the line after one more character. -/
def LineKind.push (k : LineKind) (c : Char) : LineKind :=
  if c == '\n' then .blank
  else
    match k with
    | .blank => if Text.isLinearBlank c then .blank else if c == '#' then .directive else .code
    | k => k

/-- The kind of the line after one more piece has been written. -/
def LineKind.pushPiece (v : Variant) (k : LineKind) (p : Piece) : LineKind :=
  (p.written v).foldl LineKind.push k

/-! ## Cutting -/

/-- Cuts after the first `*/`; `none` if there is none. -/
def cutBlockEnd? : List Char → Option (List Char × List Char)
  | [] => none
  | '*' :: '/' :: r => some (['*', '/'], r)
  | c :: r => (cutBlockEnd? r).map fun (body, rest) => (c :: body, rest)

theorem cutBlockEnd?_append {s body rest : List Char} (h : cutBlockEnd? s = some (body, rest)) :
    body ++ rest = s := by
  fun_induction cutBlockEnd? s generalizing body rest with
  | case1 => simp at h
  | case2 r => simp only [Option.some.injEq, Prod.mk.injEq] at h; simp [← h.1, ← h.2]
  | case3 c r _ ih =>
    obtain ⟨⟨b, t⟩, ht, heq⟩ := Option.map_eq_some_iff.mp h
    simp only [Prod.mk.injEq] at heq
    simp [← heq.1, ← heq.2, ih ht]

/-- Cuts after the closing quote or, if the line ends first, before the line feed. -/
def cutQuoted : List Char → List Char × List Char
  | [] => ([], [])
  | '"' :: r => (['"'], r)
  | '\n' :: r => ([], '\n' :: r)
  | c :: r => (c :: (cutQuoted r).1, (cutQuoted r).2)

theorem cutQuoted_append (s : List Char) : (cutQuoted s).1 ++ (cutQuoted s).2 = s := by
  fun_induction cutQuoted s <;> simp_all

/-- The pieces of a text, given the kind of the line that it continues. -/
def pieces (v : Variant) (k : LineKind) : List Char → List Piece
  | [] => []
  | '/' :: '/' :: r =>
    have : (r.dropWhile (· != '\n')).length ≤ r.length := (List.dropWhile_sublist _).length_le
    let p := Piece.comment ('/' :: '/' :: r.takeWhile (· != '\n'))
    p :: pieces v (k.pushPiece v p) (r.dropWhile (· != '\n'))
  | '/' :: '*' :: r =>
    match h : cutBlockEnd? r with
    | some (body, rest) =>
      have : rest.length ≤ r.length := by
        have := congrArg List.length (cutBlockEnd?_append h)
        simp only [List.length_append] at this
        omega
      let p := Piece.comment ('/' :: '*' :: body)
      p :: pieces v (k.pushPiece v p) rest
    | none => .kept '/' :: pieces v (k.push '/') ('*' :: r)
  | '"' :: r =>
    if k = .directive then
      have : (cutQuoted r).2.length ≤ r.length := by
        have := congrArg List.length (cutQuoted_append r)
        simp only [List.length_append] at this
        omega
      .kept '"' :: (cutQuoted r).1.map .kept ++ pieces v .directive (cutQuoted r).2
    else .kept '"' :: pieces v (k.push '"') r
  | c :: r => .kept c :: pieces v (k.push c) r
termination_by s => s.length
decreasing_by all_goals (simp only [List.length_cons]; omega)

/-- The text with every comment written as the variant asks. -/
def stripComments (v : Variant) (s : List Char) : List Char :=
  (pieces v .blank s).flatMap (Piece.written v)

end AssetPack.Glsl
