import AssetPack.Asset.Basic

/-!
# Catalogs

The assets of one run, each under its identifier, in ascending order of identifiers and each
identifier once. The order is what makes a run's output independent of the order in which files were
found; that two files meet in one identifier is an error which names both.

The order belongs to the identifiers under which assets are kept, so it is there whatever is done to
the assets themselves: `mapM` leaves every asset where it was, even one that gets another
identifier of its own.
-/

set_option autoImplicit false

namespace AssetPack

/-- Two files whose names become the same identifier; `second` is the one that was refused. -/
structure DuplicateIdentifier where
  identifier : Identifier
  first : String
  second : String
  deriving DecidableEq

/-- The wording of the clash. -/
def DuplicateIdentifier.message (d : DuplicateIdentifier) : String :=
  s!"duplicate identifier '{d.identifier.name}': '{d.second}' collides with '{d.first}'"

namespace Catalog

variable {α : Type}

/-! ## Entries in order -/

/-- Identifiers in ascending order, and so none of them twice. -/
def Ascending (identifiers : List Identifier) : Prop :=
  identifiers.Pairwise fun i j => i.name < j.name

instance (identifiers : List Identifier) : Decidable (Ascending identifiers) :=
  inferInstanceAs (Decidable (List.Pairwise _ identifiers))

/-- Entries with one more, in place of the one with the same identifier if there is one. -/
def place (i : Identifier) (a : α) : List (Identifier × α) → List (Identifier × α)
  | [] => [(i, a)]
  | e :: r =>
    if e.1 = i then (i, a) :: r
    else if i.name < e.1.name then (i, a) :: e :: r
    else e :: place i a r

theorem mem_map_fst_place {i j : Identifier} {a : α} {entries : List (Identifier × α)} :
    j ∈ (place i a entries).map Prod.fst ↔ j = i ∨ j ∈ entries.map Prod.fst := by
  induction entries with
  | nil => simp [place]
  | cons e r ih =>
    rw [place]
    split
    · rename_i heq
      simp [heq]
    · split
      · simp
      · rw [List.map_cons, List.mem_cons, ih, List.map_cons, List.mem_cons]
        exact or_left_comm

theorem ascending_place {entries : List (Identifier × α)} (h : Ascending (entries.map Prod.fst))
    (i : Identifier) (a : α) : Ascending ((place i a entries).map Prod.fst) := by
  induction entries with
  | nil => exact List.pairwise_singleton _ _
  | cons e r ih =>
    obtain ⟨hfirst, hrest⟩ := List.pairwise_cons.mp h
    rw [place]
    split
    case isTrue heq =>
      subst heq
      exact h
    case isFalse hne =>
      split
      case isTrue hlt =>
        refine List.pairwise_cons.mpr ⟨fun j hj => ?_, h⟩
        rcases List.mem_cons.mp hj with rfl | hj
        · exact hlt
        · exact String.lt_trans hlt (hfirst j hj)
      case isFalse hge =>
        refine List.pairwise_cons.mpr ⟨fun j hj => ?_, ih hrest⟩
        rcases mem_map_fst_place.mp hj with rfl | hj
        · have hname : e.1.name ≠ j.name := fun hname => hne (Identifier.eq_of_name_eq hname)
          exact Std.lt_of_le_of_ne (String.not_lt.mp hge) hname
        · exact hfirst j hj

end Catalog

/-- Assets under identifiers, in ascending order of these. -/
structure Catalog (α : Type) where
  entries : List (Identifier × α)
  ascending : Catalog.Ascending (entries.map Prod.fst)
  deriving DecidableEq

namespace Catalog

variable {α : Type}

/-- The catalog without assets. -/
def empty : Catalog α := ⟨[], .nil⟩

/-- The identifiers, in ascending order. -/
def identifiers (c : Catalog α) : List Identifier := c.entries.map Prod.fst

/-- The assets, in the order of their identifiers. -/
def assets (c : Catalog α) : List α := c.entries.map Prod.snd

/-- The asset under an identifier. -/
def get? (c : Catalog α) (i : Identifier) : Option α := c.entries.lookup i

/-- The number of assets. -/
def size (c : Catalog α) : Nat := c.entries.length

/-! ## Putting in -/

variable [Asset α]

/-- Puts an asset into the catalog under its identifier. If that is taken, the catalog stays as it
is, and the clash is the answer. -/
def put (c : Catalog α) (a : α) : Except DuplicateIdentifier Unit × Catalog α :=
  match c.get? (Asset.identifier a) with
  | some b => (.error ⟨Asset.identifier a, Asset.fileName b, Asset.fileName a⟩, c)
  | none =>
    (.ok (),
      { entries := place (Asset.identifier a) a c.entries
        ascending := ascending_place c.ascending (Asset.identifier a) a })

/-- The catalog with one more asset, for those to whom a clash is the end. -/
def insert (c : Catalog α) (a : α) : Except DuplicateIdentifier (Catalog α) :=
  let (answer, c') := c.put a
  answer.map fun () => c'

/-- The catalog of a list of assets, or the first clash. -/
def ofList (assets : List α) : Except DuplicateIdentifier (Catalog α) :=
  assets.foldlM insert empty

/-! ## Rebuilding -/

omit [Asset α]

/-- Rebuilds the asset of every entry, in order, and leaves the identifiers. -/
def rebuild {m : Type → Type} [Monad m] (f : α → m α) : (entries : List (Identifier × α)) →
    m { rebuilt : List (Identifier × α) // rebuilt.map Prod.fst = entries.map Prod.fst }
  | [] => pure ⟨[], rfl⟩
  | (i, a) :: rest => do
    let b ← f a
    let rebuilt ← rebuild f rest
    return ⟨(i, b) :: rebuilt.1, congrArg (i :: ·) rebuilt.2⟩

/-- Rebuilds every asset, in order. -/
def mapM {m : Type → Type} [Monad m] (f : α → m α) (c : Catalog α) : m (Catalog α) := do
  let rebuilt ← rebuild f c.entries
  return { entries := rebuilt.1, ascending := (congrArg Ascending rebuilt.2).mpr c.ascending }

end Catalog

end AssetPack
