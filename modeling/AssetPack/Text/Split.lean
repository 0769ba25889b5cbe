/-!
# Cutting text at a separator

`split` and `join` are the two directions of one reading: text as pieces with a separator between
neighbours. A text with `n` separators has `n + 1` pieces, some of them possibly empty, so the
empty text has one.
-/

set_option autoImplicit false

namespace AssetPack.Text

/-- The pieces between the separators; never none. -/
def split (sep : Char) : List Char → List (List Char)
  | [] => [[]]
  | c :: r =>
    if c = sep then [] :: split sep r
    else
      match split sep r with
      | [] => [[c]]
      | piece :: rest => (c :: piece) :: rest

/-- The pieces with one separator between neighbours. -/
def join (sep : Char) (pieces : List (List Char)) : List Char :=
  List.intercalate [sep] pieces

theorem split_ne_nil (sep : Char) (s : List Char) : split sep s ≠ [] := by
  cases s with
  | nil => simp [split]
  | cons c r =>
    rw [split]
    split
    · simp
    · split <;> simp

/-- Cutting loses nothing. -/
theorem join_split (sep : Char) (s : List Char) : join sep (split sep s) = s := by
  induction s with
  | nil => rfl
  | cons c r ih =>
    cases hr : split sep r with
    | nil => exact absurd hr (split_ne_nil sep r)
    | cons piece rest =>
      rw [hr] at ih
      by_cases hc : c = sep
      · rw [split, if_pos hc, hr, hc]
        simpa [join, List.intercalate] using ih
      · rw [split, if_neg hc, hr]
        cases rest <;> simp_all [join, List.intercalate]

/-- No piece contains the separator. -/
theorem sep_notMem_of_mem_split {sep : Char} {s piece : List Char} (h : piece ∈ split sep s) :
    sep ∉ piece := by
  induction s generalizing piece with
  | nil => simp_all [split]
  | cons c r ih =>
    rw [split] at h
    split at h
    · rcases List.mem_cons.mp h with rfl | h
      · simp
      · exact ih h
    · rename_i hc
      split at h
      · simp only [List.mem_singleton] at h
        simpa [h] using Ne.symm hc
      · rename_i first rest hr
        rw [hr] at ih
        rcases List.mem_cons.mp h with rfl | h
        · simpa using ⟨Ne.symm hc, ih List.mem_cons_self⟩
        · exact ih (List.mem_cons_of_mem _ h)

/-- A text without the separator is one piece. -/
theorem split_of_notMem {sep : Char} {s : List Char} (h : sep ∉ s) : split sep s = [s] := by
  induction s with
  | nil => rfl
  | cons c r ih =>
    simp only [List.mem_cons, not_or] at h
    rw [split, if_neg (Ne.symm h.1), ih h.2]

/-- The first separator ends the first piece. -/
theorem split_append {sep : Char} {s : List Char} (h : sep ∉ s) (r : List Char) :
    split sep (s ++ sep :: r) = s :: split sep r := by
  induction s with
  | nil => rw [List.nil_append, split, if_pos rfl]
  | cons c s ih =>
    simp only [List.mem_cons, not_or] at h
    rw [List.cons_append, split, if_neg (Ne.symm h.1), ih h.2]

/-- A separator ends the pieces before it, and those behind it begin anew. -/
theorem split_append_sep (sep : Char) (s r : List Char) :
    split sep (s ++ sep :: r) = split sep s ++ split sep r := by
  induction s with
  | nil => simp [split]
  | cons c s ih =>
    rw [List.cons_append, split, split, ih]
    by_cases hc : c = sep
    · rw [if_pos hc, if_pos hc, List.cons_append]
    · obtain ⟨piece, rest, hs⟩ := List.exists_cons_of_ne_nil (split_ne_nil sep s)
      rw [if_neg hc, if_neg hc, hs]
      rfl

/-- Pieces without the separator are found again. -/
theorem split_join {sep : Char} {pieces : List (List Char)} (hne : pieces ≠ [])
    (h : ∀ piece ∈ pieces, sep ∉ piece) : split sep (join sep pieces) = pieces := by
  induction pieces with
  | nil => exact absurd rfl hne
  | cons piece rest ih =>
    have hp := h piece List.mem_cons_self
    cases rest with
    | nil => simpa [join, List.intercalate] using split_of_notMem hp
    | cons next rest =>
      have hj : join sep (piece :: next :: rest) = piece ++ sep :: join sep (next :: rest) := by
        simp [join, List.intercalate]
      rw [hj, split_append hp, ih (by simp) fun q hq => h q (List.mem_cons_of_mem _ hq)]

end AssetPack.Text
