import AssetPack.Text.Split

/-!
# Paths

A path is kept and shown as it was written, and compared by its *components*: repeated and final
slashes say nothing, and neither does a dot between slashes. A dot in front of a relative path
and two dots anywhere are components of their own; nothing is resolved.

Components decide what a path means, the text decides how it reads. `push` works on the text
alone, so that a name put behind a base shows the base unchanged. The order of paths is a strict one
on their components, and any two lists of components that differ stand in it one way or the other.
-/

set_option autoImplicit false

namespace AssetPack

/-- One step of a path. -/
inductive Component where
  | root
  | here
  | up
  | name (s : String)
  deriving DecidableEq, Repr

namespace Component

/-- The step as it is written. -/
def text : Component → String
  | .root => "/"
  | .here => "."
  | .up => ".."
  | .name s => s

/-- The place of a kind of step in the order of paths. -/
def rank : Component → Nat
  | .root => 0
  | .here => 1
  | .up => 2
  | .name _ => 3

/-- The order of steps: by kind, and names by their text. -/
def before : Component → Component → Bool
  | .name s, .name t => s < t
  | a, b => a.rank < b.rank

theorem before_trans {a b c : Component} (hab : a.before b = true) (hbc : b.before c = true) :
    a.before c = true := by
  cases a <;> cases b <;> cases c
  case name.name.name =>
    exact decide_eq_true (String.lt_trans (of_decide_eq_true hab) (of_decide_eq_true hbc))
  all_goals simp [before, rank] at *

theorem before_of_not_before {a b : Component} (hne : a ≠ b) (h : ¬ a.before b = true) :
    b.before a = true := by
  cases a <;> cases b
  case name.name s t =>
    have hle : t ≤ s := String.not_lt.mp fun hlt => h (decide_eq_true hlt)
    exact decide_eq_true (Std.lt_of_le_of_ne hle fun heq => hne (congrArg _ heq.symm))
  all_goals simp [before, rank] at *

theorem not_before_self (a : Component) : a.before a = false := by
  cases a <;> simp [before, rank]

/-- The step for a piece between slashes that does not begin the path. -/
def ofInner? (piece : List Char) : Option Component :=
  if piece = [] ∨ piece = ['.'] then none
  else if piece = ['.', '.'] then some .up
  else some (.name (String.ofList piece))

end Component

/-- A path as it was written. -/
structure Path where
  text : String
  deriving DecidableEq, Repr

namespace Path

/-- The steps of the path. -/
def components (p : Path) : List Component :=
  match Text.split '/' p.text.toList with
  | [] => []
  | first :: rest =>
    let start : List Component :=
      if first = [] then (if rest = [] then [] else [.root])
      else if first = ['.'] then [.here]
      else (Component.ofInner? first).toList
    start ++ rest.filterMap Component.ofInner?

/-- Whether the two paths have the same steps. -/
def same (p q : Path) : Bool := p.components = q.components

/-- The order of lists of steps: at the first difference, and a beginning before the whole. -/
def componentsBefore : List Component → List Component → Bool
  | _, [] => false
  | [], _ :: _ => true
  | a :: r, b :: s => if a = b then componentsBefore r s else a.before b

theorem same_iff {p q : Path} : p.same q = true ↔ p.components = q.components :=
  decide_eq_true_iff

theorem componentsBefore_cons {a b : Component} {p q : List Component} :
    componentsBefore (a :: p) (b :: q) = true ↔
      a.before b = true ∨ (a = b ∧ componentsBefore p q = true) := by
  rw [componentsBefore]
  split
  · rename_i hab
    subst hab
    simp [Component.not_before_self]
  · rename_i hab
    simp [hab]

theorem componentsBefore_trans {p q r : List Component} (hpq : componentsBefore p q = true)
    (hqr : componentsBefore q r = true) : componentsBefore p r = true := by
  induction p generalizing q r with
  | nil =>
    cases r with
    | nil => cases q <;> cases hqr
    | cons => rfl
  | cons a p ih =>
    cases q with
    | nil => cases hpq
    | cons b q =>
      cases r with
      | nil => cases hqr
      | cons c r =>
        rw [componentsBefore_cons] at hpq hqr ⊢
        rcases hpq with hab | ⟨rfl, hpq⟩
        · rcases hqr with hbc | ⟨rfl, -⟩
          · exact .inl (Component.before_trans hab hbc)
          · exact .inl hab
        · exact hqr.imp_right fun ⟨hac, hqr⟩ => ⟨hac, ih hpq hqr⟩

theorem componentsBefore_of_not {p q : List Component} (hne : p ≠ q)
    (h : ¬ componentsBefore p q = true) : componentsBefore q p = true := by
  induction p generalizing q with
  | nil =>
    cases q with
    | nil => exact absurd rfl hne
    | cons => exact absurd rfl h
  | cons a p ih =>
    cases q with
    | nil => rfl
    | cons b q =>
      rw [componentsBefore_cons] at h ⊢
      by_cases hab : a = b
      · subst hab
        have hrest := ih (fun hpq => hne (congrArg _ hpq)) fun hpq => h (.inr ⟨rfl, hpq⟩)
        exact .inr ⟨rfl, hrest⟩
      · exact .inl (Component.before_of_not_before hab fun hlt => h (.inl hlt))

/-- Whether the path says where it is without a directory to start from. -/
def isAbsolute (p : Path) : Bool := p.text.toList.head? = some '/'

/-! ## Building -/

/-- The path of `name` inside the directory: the two texts with a slash between them if the first
has no slash at its end. An absolute name stands for itself. -/
def push (p : Path) (name : String) : Path :=
  if name.toList.head? = some '/' then ⟨name⟩
  else
    match p.text.toList.getLast? with
    | none => ⟨name⟩
    | some '/' => ⟨p.text ++ name⟩
    | some _ => ⟨p.text ++ "/" ++ name⟩

/-! ## Taking apart -/

/-- The last step, if it is a name. -/
def fileName? (p : Path) : Option String :=
  match p.components.getLast? with
  | some (.name s) => some s
  | _ => none

/-- The steps of the directory that holds the path; the root and the empty path have none. -/
def parentComponents? (p : Path) : Option (List Component) :=
  match p.components.getLast? with
  | none | some .root => none
  | some _ => some p.components.dropLast

/-- Pieces between slashes without those at the end that are no step. The first piece stays. -/
def dropIdle : List (List Char) → List (List Char)
  | [] => []
  | [first] => [first]
  | first :: rest =>
    let idle (piece : List Char) : Bool := (Component.ofInner? piece).isNone
    first :: (rest.reverse.dropWhile idle).reverse

/-- The text of a path with the given pieces. -/
def ofPieces (pieces : List (List Char)) : Path :=
  if pieces = [[]] then ⟨"/"⟩ else ⟨String.ofList (Text.join '/' pieces)⟩

/-- The path of the directory that holds the path, as far as it was written. -/
def parent? (p : Path) : Option Path :=
  match p.components.getLast? with
  | none | some .root => none
  | some _ =>
    match dropIdle (Text.split '/' p.text.toList) with
    | [] | [_] => some ⟨""⟩
    | pieces => some (ofPieces (dropIdle pieces.dropLast))

/-- What follows the last dot of a file name, unless nothing stands before that dot. -/
def extension? (name : String) : Option String :=
  if name = ".." then none
  else
    let after := name.toList.reverse.takeWhile (· != '.')
    match name.toList.reverse.dropWhile (· != '.') with
    | '.' :: _ :: _ => some (String.ofList after.reverse)
    | _ => none

end Path

end AssetPack
