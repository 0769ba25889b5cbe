import Mathlib.Order.Bounds.Defs
import AssetPack.Proofs.Config.Warning
import AssetPack.Proofs.Text.TwoRows
import AssetPack.Proofs.Text.Utf8

/-!
# Which key is suggested

The distance of two keys is the edit distance of their bytes, and so a distance in the proper sense:
it is the same both ways, it is zero between equal keys only, and a detour is never shorter. What is
suggested for a key is the first known key among those that are nearest to it (`FirstNearest`), as
long as that is at most two edits away.
-/

set_option autoImplicit false

namespace AssetPack.ConfigWarning

open Text (Edits)
open Text.Utf8 (encode encode_injective)

variable {a b c key k first : String} {table : List String}

/-! ## The distance of keys -/

theorem distance_eq (a b : String) :
    distance a b = Text.distance (encode a.toList) (encode b.toList) :=
  Text.editDistance_eq _ _

theorem isLeast_distance (a b : String) : IsLeast {n | Away n a b} (distance a b) := by
  constructor
  · obtain ⟨m, hm, haway⟩ := distance_le_iff.mp (Nat.le_refl (distance a b))
    have hle : distance a b ≤ m := distance_le_iff.mpr ⟨m, Nat.le_refl m, haway⟩
    rwa [Nat.le_antisymm hm hle] at haway
  · intro m haway
    exact distance_le_iff.mpr ⟨m, Nat.le_refl m, haway⟩

theorem distance_symm (a b : String) : distance a b = distance b a := by
  rw [distance_eq, distance_eq, Text.distance_comm]

theorem distance_eq_zero : distance a b = 0 ↔ a = b := by
  rw [distance_eq, Text.distance_eq_zero_iff]
  constructor
  · intro h
    exact String.toList_inj.mp (encode_injective h)
  · intro h
    rw [h]

theorem distance_detour (a b c : String) : distance a c ≤ distance a b + distance b c := by
  rw [distance_eq, distance_eq, distance_eq]
  exact Text.distance_triangle _ _ _

/-! ## The first of the nearest -/

/-- The key stands in the table, all before it are farther from `key`, and none behind it is
nearer. -/
def FirstNearest (key : String) (table : List String) (k : String) : Prop :=
  ∃ before after, table = before ++ k :: after ∧
    (∀ e ∈ before, distance key k < distance key e) ∧
    ∀ e ∈ after, distance key k ≤ distance key e

/-- A key that is nearer than all before it is not behind one that is as near. -/
theorem eq_of_farther_before {k' : String} {mid before after before' after' : List String}
    (hbefore' : ∀ e ∈ before', distance key k' < distance key e)
    (hafter : ∀ e ∈ after, distance key k ≤ distance key e)
    (hmid : before' = before ++ mid) (hrest : k :: after = mid ++ k' :: after') : k = k' := by
  cases mid with
  | nil =>
    simp only [List.nil_append, List.cons.injEq] at hrest
    exact hrest.1
  | cons m mid =>
    simp only [List.cons_append, List.cons.injEq] at hrest
    have hfarther := hbefore' k (by simp [hmid, hrest.1])
    have hnearer := hafter k' (by simp [hrest.2])
    omega

theorem FirstNearest.unique {k' : String} (h : FirstNearest key table k)
    (h' : FirstNearest key table k') : k = k' := by
  obtain ⟨before, after, htable, hbefore, hafter⟩ := h
  obtain ⟨before', after', htable', hbefore', hafter'⟩ := h'
  rw [htable] at htable'
  rcases List.append_eq_append_iff.mp htable' with ⟨mid, hmid, hrest⟩ | ⟨mid, hmid, hrest⟩
  · exact eq_of_farther_before hbefore' hafter hmid hrest
  · exact (eq_of_farther_before hbefore hafter' hmid hrest).symm

/-- A key that is farther may stand in front. -/
theorem FirstNearest.cons_farther (h : FirstNearest key table k)
    (hfarther : distance key k < distance key first) : FirstNearest key (first :: table) k := by
  obtain ⟨before, after, htable, hbefore, hafter⟩ := h
  refine ⟨first :: before, after, congrArg (first :: ·) htable, ?_, hafter⟩
  intro e he
  rcases List.mem_cons.mp he with rfl | he
  · exact hfarther
  · exact hbefore e he

/-- One that is no nearer than the first key may stand behind it. -/
theorem FirstNearest.insert_second {rest : List String} {best : String}
    (h : FirstNearest key (first :: rest) best) (hk : distance key first ≤ distance key k) :
    FirstNearest key (first :: k :: rest) best := by
  obtain ⟨before, after, htable, hbefore, hafter⟩ := h
  cases before with
  | nil =>
    simp only [List.nil_append, List.cons.injEq] at htable
    obtain ⟨rfl, rfl⟩ := htable
    refine ⟨[], k :: rest, rfl, by simp, ?_⟩
    intro e he
    rcases List.mem_cons.mp he with rfl | he
    · exact hk
    · exact hafter e he
  | cons f before =>
    simp only [List.cons_append, List.cons.injEq] at htable
    obtain ⟨rfl, rfl⟩ := htable
    refine ⟨first :: k :: before, after, rfl, ?_, hafter⟩
    have hfirst := hbefore first List.mem_cons_self
    intro e he
    rcases List.mem_cons.mp he with rfl | he
    · exact hfirst
    · rcases List.mem_cons.mp he with rfl | he
      · exact Nat.lt_of_lt_of_le hfirst hk
      · exact hbefore e (List.mem_cons_of_mem _ he)

theorem firstNearest_nearest (key first : String) (rest : List String) :
    FirstNearest key (first :: rest) (nearest key first rest) := by
  induction rest generalizing first with
  | nil => exact ⟨[], [], rfl, by simp, by simp⟩
  | cons k rest ih =>
    rw [nearest]
    split
    case isTrue hnearer =>
      have hleast := distance_nearest_le key k rest k List.mem_cons_self
      exact (ih k).cons_farther (Nat.lt_of_le_of_lt hleast hnearer)
    case isFalse hnot => exact (ih first).insert_second (Nat.le_of_not_lt hnot)

theorem exists_firstNearest_knownKeys (key : String) :
    ∃ k, FirstNearest key knownKeys k ∧ suggest? key = if distance key k ≤ 2 then some k else none :=
  ⟨_, firstNearest_nearest key "shaders" ["extensions", "images", "crunch_tool", "densities"], rfl⟩

/-- **The distance of two keys is the least number of insertions, deletions and substitutions of
bytes, and the first of the nearest known keys is suggested, if it is at most two of them away.**
The least number is what the recursion on first bytes gives, and two rows are enough to work it out,
with no access outside them. -/
theorem suggests_first_of_nearest :
    (∀ a b, IsLeast {n | Away n a b} (distance a b) ∧
      distance a b = Text.distance (encode a.toList) (encode b.toList) ∧
      Text.twoRows? (encode a.toList) (encode b.toList) = some (distance a b)) ∧
    (∀ a b, distance a b = distance b a) ∧
    (∀ a b, distance a b = 0 ↔ a = b) ∧
    (∀ a b c, distance a c ≤ distance a b + distance b c) ∧
    (∀ key, ∃! k, FirstNearest key knownKeys k) ∧
    ∀ key k, suggest? key = some k ↔ FirstNearest key knownKeys k ∧ distance key k ≤ 2 := by
  refine ⟨?_, distance_symm, fun a b => distance_eq_zero, distance_detour, ?_, ?_⟩
  · intro a b
    exact ⟨isLeast_distance a b, distance_eq a b, Text.twoRows?_eq _ _⟩
  · intro key
    obtain ⟨k, hk, -⟩ := exists_firstNearest_knownKeys key
    exact ⟨k, hk, fun k' hk' => hk'.unique hk⟩
  · intro key k
    obtain ⟨best, hbest, hsuggest⟩ := exists_firstNearest_knownKeys key
    rw [hsuggest]
    constructor
    · intro h
      split at h
      case isTrue hnear => cases h; exact ⟨hbest, hnear⟩
      case isFalse => cases h
    · rintro ⟨hk, hnear⟩
      rw [hk.unique hbest] at hnear ⊢
      exact if_pos hnear

end AssetPack.ConfigWarning
