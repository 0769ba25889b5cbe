import AssetPack.Ignore.Glob

/-!
# How globs are written

`?` and `*` take bytes of a name, `[…]` one byte, and a backslash takes away the meaning of what
follows it. Two stars speak of directories where they fill the space between slashes, and are two
ordinary stars elsewhere. So far this is the documented syntax of gitignore files; `{…,…}` makes a
choice and may nest, as the library `globset` documents it.

Where the two are silent the reading is the library's with the settings for these files. A bracket
that is never closed stands for itself, and after one no further bracket opens anything. The faults
and their wording are the library's too.
-/

set_option autoImplicit false

namespace AssetPack

/-- What is wrong with the text of a glob. -/
inductive GlobFault where
  | danglingEscape
  | badRange (low high : Char)
  | unclosedGroup
  | unopenedGroup
  deriving DecidableEq, Repr

/-- The wording of the fault. -/
def GlobFault.message : GlobFault → String
  | .danglingEscape => "dangling '\\'"
  | .badRange low high => s!"invalid range; '{low}' > '{high}'"
  | .unclosedGroup =>
    "unclosed alternate group; missing '\x7d' (maybe escape '\x7b' with '[\x7b]'?)"
  | .unopenedGroup =>
    "unopened alternate group; missing '\x7b' (maybe escape '\x7d' with '[\x7d]'?)"

namespace Glob

/-! ## Brackets -/

/-- What follows an opening bracket: ranges up to a closing one and the text behind it, no
closing bracket, or a range that runs backwards. -/
inductive Bracket (limit : Nat) where
  | closed (ranges : List (Char × Char)) (rest : List Char) (shorter : rest.length < limit)
  | unclosed
  | backwards (low high : Char)

/-- Reads ranges up to the closing bracket. `started` says that something stands in the bracket
already, so that a closing bracket closes it and a dash may make a range; `inRange` that such a
dash was the last character. Ranges are kept last first. -/
def readRanges (limit : Nat) (started inRange : Bool) (ranges : List (Char × Char)) :
    (s : List Char) → s.length ≤ limit → Bracket limit
  | [], _ => .unclosed
  | c :: r, h =>
    have h' : r.length < limit := h
    if c = ']' && started then
      .closed (if inRange then ('-', '-') :: ranges else ranges).reverse r h'
    else if c = '-' && started && !inRange then
      readRanges limit true true ranges r (Nat.le_of_lt h')
    else
      match inRange, ranges with
      | true, (low, _) :: older =>
        if c < low then .backwards low c
        else readRanges limit true false ((low, c) :: older) r (Nat.le_of_lt h')
      | _, _ => readRanges limit true false ((c, c) :: ranges) r (Nat.le_of_lt h')

/-- A bracket in whole: an exclamation mark or caret in front takes the bytes outside. -/
def readBracket (s : List Char) : Bool × Bracket s.length :=
  match s with
  | '!' :: r => (true, readRanges _ false false [] r (Nat.le_succ _))
  | '^' :: r => (true, readRanges _ false false [] r (Nat.le_succ _))
  | s => (false, readRanges _ false false [] s (Nat.le_refl _))

/-! ## The whole glob -/

/-- A group that is still open: the parts in front of it and its finished branches, both last
first. -/
structure OpenGroup where
  before : List Glob
  branches : List Glob

/-- Two stars between slashes take the place of the slash in front of them. Where that part
already speaks of directories it stays as it is. -/
def widen (atEnd : Bool) : List Glob → List Glob
  | .leadingDirs :: parts => .leadingDirs :: parts
  | .trailing :: parts => .trailing :: parts
  | _ :: parts => (if atEnd then .trailing else .innerDirs) :: parts
  | [] => []

/-- Whether two stars may begin a component: behind a slash, or at the edge of a branch. -/
def mayBeginComponent (last : Option Char) (groups : List OpenGroup) : Bool :=
  last = some '/' || (!groups.isEmpty && (last = some ',' || last = some '\x7b'))

/-- The parts of a glob's text. `brackets` says that brackets still have a meaning, `last` is the
character before, `parts` are those read since the innermost open group or branch began (last
first), and `groups` the open groups, innermost first. -/
def readParts (brackets : Bool) (last : Option Char) (parts : List Glob)
    (groups : List OpenGroup) : List Char → Except GlobFault (List Glob)
  | [] => if groups.isEmpty then .ok parts.reverse else .error .unclosedGroup
  | '?' :: r => readParts brackets (some '?') (.anyByte :: parts) groups r
  | '*' :: '*' :: r =>
    let twoStars := readParts brackets (some '*') (.anyRun :: .anyRun :: parts) groups r
    if parts.isEmpty then
      match r with
      | [] => readParts brackets (some '*') (.leadingDirs :: parts) groups []
      | '/' :: r => readParts brackets (some '/') (.leadingDirs :: parts) groups r
      | _ => twoStars
    else if mayBeginComponent last groups then
      match r with
      | [] => readParts brackets (some '*') (widen true parts) groups []
      | '/' :: r => readParts brackets (some '/') (widen false parts) groups r
      | c :: r =>
        if !groups.isEmpty && (c = ',' || c = '\x7d') then
          readParts brackets (some '*') (widen true parts) groups (c :: r)
        else twoStars
    else twoStars
  | '*' :: r => readParts brackets (some '*') (.anyRun :: parts) groups r
  | '[' :: r =>
    if brackets then
      match readBracket r with
      | (negated, .closed ranges rest _) =>
        let part := Glob.byteIn negated (ranges.flatMap fun (low, high) => byteRanges low high)
        readParts brackets (some ']') (part :: parts) groups rest
      | (_, .unclosed) => readParts false (some '[') (.char '[' :: parts) groups r
      | (_, .backwards low high) => .error (.badRange low high)
    else readParts brackets (some '[') (.char '[' :: parts) groups r
  | '\x7b' :: r => readParts brackets (some '\x7b') [] (⟨parts, []⟩ :: groups) r
  | '\x7d' :: r =>
    match groups with
    | [] => .error .unopenedGroup
    | g :: groups =>
      let branches := (ofParts parts.reverse :: g.branches).reverse
      readParts brackets (some '\x7d') (choice branches :: g.before) groups r
  | ',' :: r =>
    match groups with
    | [] => readParts brackets (some ',') (.char ',' :: parts) [] r
    | g :: groups =>
      let g := { g with branches := ofParts parts.reverse :: g.branches }
      readParts brackets (some ',') [] (g :: groups) r
  | '\\' :: r =>
    match r with
    | [] => .error .danglingEscape
    | c :: r => readParts brackets (some c) (.char c :: parts) groups r
  | c :: r => readParts brackets (some c) (.char c :: parts) groups r
termination_by s => s.length

/-- The glob that a text describes. Leading directories and nothing else are everything. -/
def parse (s : List Char) : Except GlobFault Glob := do
  match ← readParts true none [] [] s with
  | [.leadingDirs] => return .anything
  | parts => return ofParts parts

end Glob

end AssetPack
