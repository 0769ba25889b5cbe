import Mathlib.Data.List.Nodup
import Mathlib.Data.List.Perm.Basic

/-!
# Looking up by key

What a list of pairs holds for a key is its first pair with that key. If no two pairs have the same
key, the order of the pairs does not matter.
-/

set_option autoImplicit false

namespace AssetPack

variable {κ α : Type} [BEq κ] [LawfulBEq κ] {key : κ} {value : α} {pairs pairs' : List (κ × α)}

theorem lookup_cons_eq [DecidableEq κ] (key key' : κ) (value : α) (rest : List (κ × α)) :
    ((key', value) :: rest).lookup key = if key = key' then some value else rest.lookup key := by
  by_cases h : key = key'
  · rw [h, List.lookup_cons_self, if_pos rfl]
  · rw [List.lookup_cons, beq_false_of_ne h, if_neg h]

theorem mem_of_lookup_eq_some (h : pairs.lookup key = some value) : (key, value) ∈ pairs := by
  obtain ⟨before, after, rfl, -⟩ := List.lookup_eq_some_iff.mp h
  exact List.mem_append_right before List.mem_cons_self

theorem lookup_eq_some_iff_mem (hdistinct : (pairs.map Prod.fst).Nodup) :
    pairs.lookup key = some value ↔ (key, value) ∈ pairs := by
  induction pairs with
  | nil => simp
  | cons p pairs ih =>
    obtain ⟨key', w⟩ := p
    obtain ⟨hkey, hrest⟩ := List.nodup_cons.mp hdistinct
    rw [List.lookup_cons, List.mem_cons, Prod.mk.injEq]
    by_cases heq : key = key'
    · subst heq
      rw [BEq.rfl]
      constructor
      · rintro ⟨⟩
        exact .inl ⟨rfl, rfl⟩
      · rintro (⟨-, rfl⟩ | hmem)
        · rfl
        · exact absurd (List.mem_map_of_mem hmem) hkey
    · rw [beq_false_of_ne heq]
      simp only [heq, false_and, false_or]
      exact ih hrest

theorem lookup_eq_of_perm (h : pairs'.Perm pairs) (hdistinct : (pairs.map Prod.fst).Nodup)
    (key : κ) : pairs'.lookup key = pairs.lookup key := by
  refine Option.ext fun value => ?_
  rw [lookup_eq_some_iff_mem hdistinct,
    lookup_eq_some_iff_mem ((h.map Prod.fst).nodup_iff.mpr hdistinct), h.mem_iff]

end AssetPack
