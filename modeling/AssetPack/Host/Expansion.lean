import AssetPack.Host.Programs

/-!
# What the words of a script stand for

A *field* is one argument that a word became: its characters, each with a mark that says whether
it was quoted. Quoted characters stand for themselves; unquoted ones that came from a parameter
are cut into fields at blanks, and unquoted stars and question marks are matched against the names
that are there. A field that matches nothing stays as it is.
-/

set_option autoImplicit false

namespace AssetPack.Host

/-- A character, and whether it was quoted. -/
abbrev Marked : Type := Char × Bool

/-- The characters of one argument. -/
abbrev Field : Type := List Marked

namespace Field

/-- A text with all characters marked alike. -/
def ofText (isQuoted : Bool) (s : List Char) : Field := s.map (·, isQuoted)

/-- The characters without their marks. -/
def text (f : Field) : String := String.ofList (f.map Prod.fst)

/-- Whether a character is a wildcard. -/
def isWild (c : Marked) : Bool := c = ('*', false) || c = ('?', false)

/-- Whether a pattern fits a text. -/
def fits : Field → List Char → Bool
  | [], s => s.isEmpty
  | c :: p, s =>
    if c = ('*', false) then
      fits p s ||
        match s with
        | [] => false
        | _ :: r => fits (c :: p) r
    else
      match s with
      | [] => false
      | x :: r => (c = ('?', false) || c.1 = x) && fits p r
termination_by p s => p.length + s.length

/-- The pieces of a pattern between slashes. -/
def splitSlash : Field → List Field
  | [] => [[]]
  | c :: r =>
    match splitSlash r with
    | [] => [[c]]
    | piece :: rest => if c.1 = '/' then [] :: piece :: rest else (c :: piece) :: rest

/-- The names in a directory that fit a pattern. Hidden ones have to be asked for. -/
def namesThatFit (d : Disk) (dir : String) (pattern : Field) : List String :=
  let names := (d.list (fun _ => true) ⟨if dir = "" then "." else dir⟩).toOption.getD []
  let wantsHidden := (pattern.map Prod.fst).head? = some '.'
  names.filter fun name =>
    fits pattern name.toList && (wantsHidden || name.toList.head? ≠ some '.')

/-- The paths that fit the pieces of a pattern, behind a beginning. -/
def pathsThatFit (d : Disk) (start : String) : List Field → List String
  | [] => [start]
  | piece :: rest =>
    let ending := if rest = [] then "" else "/"
    if piece.any isWild then
      (namesThatFit d start piece).flatMap fun name =>
        let path := start ++ name
        if rest ≠ [] && !d.isDir ⟨path⟩ then [] else pathsThatFit d (path ++ ending) rest
    else pathsThatFit d (start ++ piece.text ++ ending) rest

/-- The arguments that a field becomes. -/
def arguments (d : Disk) (f : Field) : List String :=
  if f.any isWild then
    let isThere (path : String) : Bool := (d.find false ⟨path⟩).toOption.isSome
    let found := (pathsThatFit d "" (splitSlash f)).filter isThere
    if found = [] then [f.text] else found
  else [f.text]

end Field

/-! ## Cutting values -/

/-- Whether a character separates fields. -/
def isFieldBlank (c : Char) : Bool := c == ' ' || c == '\t' || c == '\n'

/-- The other part of the first cut, in the order of the list, of which the one part fits a
pattern. -/
def firstCut (pattern : Field) (cuts : List (List Char × List Char)) : Option (List Char) :=
  (cuts.find? fun c => Field.fits pattern c.1).map Prod.snd

/-- A value without the start or the end that fits a pattern. -/
def Cut.apply (cut : Cut) (pattern : List Char) (value : List Char) : List Char :=
  let lengths := List.range (value.length + 1)
  let starts := lengths.map fun n => (value.take n, value.drop n)
  let ends := lengths.map fun n => (value.drop (value.length - n), value.take (value.length - n))
  let pattern := Field.ofText false pattern
  let rest :=
    match cut with
    | .shortestStart => firstCut pattern starts
    | .longestStart => firstCut pattern starts.reverse
    | .shortestEnd => firstCut pattern ends
    | .longestEnd => firstCut pattern ends.reverse
  rest.getD value

/-! ## Putting fields together -/

/-- Fields that are whole, and one that may still grow. -/
structure Fields where
  whole : List Field
  last? : Option Field

namespace Fields

/-- No field. -/
def none : Fields := ⟨[], Option.none⟩

/-- More characters for the last field. -/
def extend (f : Fields) (more : Field) : Fields :=
  { f with last? := some (f.last?.getD [] ++ more) }

/-- The last field made whole, if there is one. -/
def close (f : Fields) : Fields := ⟨f.whole ++ f.last?.toList, Option.none⟩

/-- An unquoted value, cut at blanks. -/
def extendCut (f : Fields) (value : List Char) : Fields :=
  value.foldl (fun f c => if isFieldBlank c then f.close else f.extend [(c, false)]) f

/-- Several values, of which the first goes on the last field and the last may still grow. -/
def extendEach (f : Fields) : List String → Fields
  | [] => f
  | [a] => f.extend (Field.ofText true a.toList)
  | a :: rest => extendEach (f.extend (Field.ofText true a.toList)).close rest

end Fields

end AssetPack.Host
