import Mathlib.Data.List.DropRight
import Mathlib.Data.List.Forall2
import AssetPack.Text.Blank
import AssetPack.Text.Lines

/-!
# Reading a text line by line

`splitLf` is defined character by character and everything said about shader text is said line
by line. This file is the passage between the two. `splitLf_induction` is the form most proofs
use: a text is a line, or a line, a line feed and a text, and `splitLf` takes it apart just so.
`flatMap_splitLf` is the case of a function that starts afresh after every line feed. Lines that are
written with a line feed behind each (`endLf`) are found again.

Trimming is here as well, with the one fact about it that all callers need: it cuts blanks off
the end and nothing else, which `trimEndWith_cons` says from the front, the way texts are read.
-/

set_option autoImplicit false

namespace AssetPack.Text

/-! ## Blanks -/

@[simp] theorem isLinearBlank_space : isLinearBlank ' ' = true := rfl

@[simp] theorem isBlank_space : isBlank ' ' = true := rfl

@[simp] theorem isBlank_lf : isBlank '\n' = true := rfl

@[simp] theorem isBlank_slash : isBlank '/' = false := rfl

@[simp] theorem isBlank_star : isBlank '*' = false := rfl

@[simp] theorem isBlank_quote : isBlank '"' = false := rfl

@[simp] theorem isBlank_hash : isBlank '#' = false := rfl

theorem not_isLinearBlank {c : Char} (hc : isBlank c = false) : isLinearBlank c = false := by
  by_contra h
  rw [Bool.not_eq_false] at h
  exact absurd (isBlank_of_isLinearBlank h) (by simp [hc])

/-- A visible character is none of the blanks. -/
theorem ne_of_not_isBlank {c b : Char} (hc : isBlank c = false) (hb : isBlank b = true) :
    c ≠ b := by
  rintro rfl
  exact absurd hb (by simp [hc])

theorem lf_ne_of_isLinearBlank {c : Char} (hc : isLinearBlank c = true) : c ≠ '\n' := by
  rintro rfl
  exact absurd hc (by decide)

/-! ## Lines -/

theorem join_singleton (sep : Char) (piece : List Char) : join sep [piece] = piece := by
  simp [join, List.intercalate]

theorem join_cons (sep : Char) (piece : List Char) {rest : List (List Char)} (h : rest ≠ []) :
    join sep (piece :: rest) = piece ++ sep :: join sep rest := by
  cases rest with
  | nil => exact absurd rfl h
  | cons next rest => simp [join, List.intercalate]

theorem join_append (sep : Char) (front : List (List Char)) {rest : List (List Char)}
    (h : rest ≠ []) :
    join sep (front ++ rest) = (front.flatMap fun piece => piece ++ [sep]) ++ join sep rest := by
  induction front with
  | nil => rfl
  | cons piece front ih =>
    rw [List.cons_append, join_cons sep piece (by simp [h]), ih]
    simp

theorem join_concat (sep : Char) {front : List (List Char)} (h : front ≠ []) (piece : List Char) :
    join sep (front ++ [piece]) = join sep front ++ sep :: piece := by
  induction front with
  | nil => exact absurd rfl h
  | cons first front ih =>
    by_cases hfront : front = []
    · subst hfront
      rw [List.singleton_append, join_cons sep first (by simp), join_singleton, join_singleton]
    · rw [List.cons_append, join_cons sep first (by simp), ih hfront, join_cons sep first hfront]
      simp

theorem mem_join {sep : Char} {pieces : List (List Char)} {c : Char} (h : c ∈ join sep pieces) :
    c = sep ∨ ∃ piece ∈ pieces, c ∈ piece := by
  induction pieces with
  | nil => exact absurd h (by simp [join, List.intercalate])
  | cons piece rest ih =>
    by_cases hr : rest = []
    · subst hr
      rw [join_singleton] at h
      exact Or.inr ⟨piece, List.mem_cons_self, h⟩
    · rw [join_cons sep piece hr] at h
      rcases List.mem_append.mp h with h | h
      · exact Or.inr ⟨piece, List.mem_cons_self, h⟩
      · rcases List.mem_cons.mp h with rfl | h
        · exact Or.inl rfl
        · refine (ih h).imp_right ?_
          rintro ⟨p, hp, hc⟩
          exact ⟨p, List.mem_cons_of_mem _ hp, hc⟩

@[simp] theorem joinLf_nil : joinLf [] = [] := rfl

@[simp] theorem joinLf_singleton (line : List Char) : joinLf [line] = line :=
  join_singleton '\n' line

theorem joinLf_cons (line : List Char) {rest : List (List Char)} (h : rest ≠ []) :
    joinLf (line :: rest) = line ++ '\n' :: joinLf rest :=
  join_cons '\n' line h

theorem mem_joinLf {lines : List (List Char)} {c : Char} (h : c ∈ joinLf lines) :
    c = '\n' ∨ ∃ line ∈ lines, c ∈ line :=
  mem_join h

theorem joinLf_splitLf (s : List Char) : joinLf (splitLf s) = s := join_split '\n' s

theorem splitLf_ne_nil (s : List Char) : splitLf s ≠ [] := split_ne_nil '\n' s

theorem lf_notMem_of_mem_splitLf {s line : List Char} (h : line ∈ splitLf s) : '\n' ∉ line :=
  sep_notMem_of_mem_split h

theorem splitLf_joinLf {lines : List (List Char)} (hne : lines ≠ [])
    (h : ∀ line ∈ lines, '\n' ∉ line) : splitLf (joinLf lines) = lines :=
  split_join hne h

/-- A text is its last line, or a line, a line feed and a text. -/
theorem splitLf_induction {P : List Char → List (List Char) → Prop}
    (last : ∀ line, '\n' ∉ line → P line [line])
    (more : ∀ line rest, '\n' ∉ line → P rest (splitLf rest) →
      P (line ++ '\n' :: rest) (line :: splitLf rest))
    (s : List Char) : P s (splitLf s) := by
  have key : ∀ lines : List (List Char), lines ≠ [] → (∀ line ∈ lines, '\n' ∉ line) →
      P (joinLf lines) lines := by
    intro lines
    induction lines with
    | nil => intro hne _; exact absurd rfl hne
    | cons line rest ih =>
      intro _ hlf
      have hline : '\n' ∉ line := hlf line List.mem_cons_self
      have hrest : ∀ l ∈ rest, '\n' ∉ l := fun l hl => hlf l (List.mem_cons_of_mem _ hl)
      by_cases hr : rest = []
      · subst hr
        rw [joinLf_singleton]
        exact last line hline
      · have hp := ih hr hrest
        have hs : splitLf (joinLf rest) = rest := splitLf_joinLf hr hrest
        rw [joinLf_cons line hr]
        have := more line (joinLf rest) hline (by rw [hs]; exact hp)
        rwa [hs] at this
  have := key (splitLf s) (splitLf_ne_nil s) fun line => lf_notMem_of_mem_splitLf
  rwa [joinLf_splitLf] at this

/-- A function that starts afresh after every line feed is computed line by line. -/
theorem flatMap_splitLf {α : Type} {f g : List Char → List α}
    (hlast : ∀ line, '\n' ∉ line → f line = g line)
    (hmore : ∀ line rest, '\n' ∉ line → f (line ++ '\n' :: rest) = g line ++ f rest)
    (s : List Char) : f s = (splitLf s).flatMap g := by
  refine splitLf_induction (P := fun s lines => f s = lines.flatMap g) ?_ ?_ s
  · intro line h
    simp [hlast line h]
  · intro line rest h ih
    rw [hmore line rest h, List.flatMap_cons, ih]

theorem mem_of_mem_splitLf {s line : List Char} (hl : line ∈ splitLf s) {c : Char}
    (hc : c ∈ line) : c ∈ s := by
  refine splitLf_induction (P := fun s lines => line ∈ lines → c ∈ s) ?_ ?_ s hl
  · intro l _ h
    rwa [List.mem_singleton.mp h] at hc
  · intro l rest _ ih h
    rcases List.mem_cons.mp h with rfl | h
    · exact List.mem_append_left _ hc
    · exact List.mem_append_right _ (List.mem_cons_of_mem _ (ih h))

/-- Texts that agree up to a relation which keeps line feeds apart from other characters have
their lines in the same places. -/
theorem forall₂_splitLf {R : Char → Char → Prop} (hR : ∀ a b, R a b → (a = '\n' ↔ b = '\n'))
    {s t : List Char} (h : List.Forall₂ R s t) :
    List.Forall₂ (List.Forall₂ R) (splitLf s) (splitLf t) := by
  induction h with
  | nil => exact .cons .nil .nil
  | @cons a b s t hab _ ih =>
    by_cases ha : a = '\n'
    · have hb : b = '\n' := (hR a b hab).mp ha
      simp only [splitLf, split, if_pos ha, if_pos hb]
      exact .cons .nil ih
    · have hb : b ≠ '\n' := fun hb => ha ((hR a b hab).mpr hb)
      simp only [splitLf, split, if_neg ha, if_neg hb]
      cases hs : split '\n' s with
      | nil => exact absurd hs (split_ne_nil '\n' s)
      | cons l ls =>
        cases ht : split '\n' t with
        | nil => exact absurd ht (split_ne_nil '\n' t)
        | cons m ms =>
          rw [splitLf, splitLf, hs, ht] at ih
          cases ih with
          | cons hl hls => exact .cons (.cons hab hl) hls

/-! ## Lines with ends -/

/-- Lines, each ended by a line feed. -/
def endLf (lines : List (List Char)) : List Char := lines.flatMap fun line => line ++ ['\n']

theorem endLf_append (lines rest : List (List Char)) :
    endLf (lines ++ rest) = endLf lines ++ endLf rest :=
  List.flatMap_append

theorem endLf_cons (line : List Char) (rest : List (List Char)) :
    endLf (line :: rest) = line ++ '\n' :: endLf rest := by
  simp [endLf]

theorem endLf_flatMap {α : Type} (f : α → List (List Char)) (xs : List α) :
    endLf (xs.flatMap f) = xs.flatMap fun x => endLf (f x) :=
  List.flatMap_assoc

theorem splitLf_endLf {lines : List (List Char)} (h : ∀ line ∈ lines, '\n' ∉ line) :
    splitLf (endLf lines) = lines ++ [[]] := by
  induction lines with
  | nil => rfl
  | cons line rest ih =>
    rw [List.forall_mem_cons] at h
    rw [endLf_cons, splitLf, split_append h.1, ← splitLf, ih h.2]
    rfl

/-! ## Line ends -/

theorem cr_notMem_normalizeEnds (s : List Char) : '\r' ∉ normalizeEnds s := by
  fun_induction normalizeEnds s with
  | case1 => simp
  | case2 r ih => simpa using ih
  | case3 r _ ih => simpa using ih
  | case4 c r _ hc ih => simpa using ⟨fun h => hc h.symm, ih⟩

theorem normalizeEnds_of_notMem {s : List Char} (h : '\r' ∉ s) : normalizeEnds s = s := by
  fun_induction normalizeEnds s with
  | case1 => rfl
  | case2 r ih => exact absurd List.mem_cons_self h
  | case3 r _ ih => exact absurd List.mem_cons_self h
  | case4 c r _ hc ih => rw [ih fun hr => h (List.mem_cons_of_mem _ hr)]

theorem mem_of_mem_normalizeEnds {s : List Char} {c : Char} (h : c ∈ normalizeEnds s) :
    c ∈ s ∨ c = '\n' := by
  fun_induction normalizeEnds s with
  | case1 => exact Or.inl h
  | case2 r ih | case3 r _ ih =>
    rcases List.mem_cons.mp h with rfl | h
    · exact Or.inr rfl
    · exact (ih h).imp_left (by simp +contextual)
  | case4 a r _ _ ih =>
    rcases List.mem_cons.mp h with rfl | h
    · exact Or.inl List.mem_cons_self
    · exact (ih h).imp_left (List.mem_cons_of_mem _)

/-! ## Trimming -/

/-- Trimming at the end, read from the front: a character goes if it and all after it go. -/
theorem trimEndWith_cons (p : Char → Bool) (c : Char) (s : List Char) :
    trimEndWith p (c :: s) =
      if trimEndWith p s = [] ∧ p c = true then [] else c :: trimEndWith p s := by
  unfold trimEndWith
  rw [List.reverse_cons, List.dropWhile_append]
  by_cases hs : List.dropWhile p s.reverse = []
  · by_cases hc : p c = true <;> simp [hs, hc]
  · simp [hs]

theorem trimEndWith_eq_nil_iff {p : Char → Bool} {s : List Char} :
    trimEndWith p s = [] ↔ ∀ c ∈ s, p c = true := by
  simp [trimEndWith, List.dropWhile_eq_nil_iff]

theorem trimEndWith_trimEndWith (p : Char → Bool) (s : List Char) :
    trimEndWith p (trimEndWith p s) = trimEndWith p s := by
  simp only [trimEndWith, List.reverse_reverse, List.dropWhile_idempotent]

theorem isPrefix_trimEndWith (p : Char → Bool) (s : List Char) : trimEndWith p s <+: s :=
  ⟨_, trimEndWith_append p s⟩

theorem mem_of_mem_trimEndWith {p : Char → Bool} {s : List Char} {c : Char}
    (h : c ∈ trimEndWith p s) : c ∈ s :=
  (isPrefix_trimEndWith p s).subset h

/-- Nothing is cut from a text that ends in a character that stays. -/
theorem trimEndWith_eq_self_iff {p : Char → Bool} {s : List Char} :
    trimEndWith p s = s ↔ ∀ c, s.getLast? = some c → p c = false := by
  induction s with
  | nil => simp [trimEndWith_nil]
  | cons a s ih =>
    rw [trimEndWith_cons]
    cases s with
    | nil => by_cases ha : p a = true <;> simp [ha, trimEndWith_nil]
    | cons b s =>
      rw [List.getLast?_cons_cons, ← ih]
      by_cases h : trimEndWith p (b :: s) = [] ∧ p a = true
      · simp [h.1, h.2]
      · rw [if_neg h, List.cons.injEq, and_iff_right rfl]

/-- Nothing is cut from a text whose first and last characters stay. -/
theorem trimWith_eq_self {p : Char → Bool} {s : List Char}
    (hhead : ∀ c, s.head? = some c → p c = false)
    (hlast : ∀ c, s.getLast? = some c → p c = false) : trimWith p s = s := by
  cases s with
  | nil => rfl
  | cons c r =>
    rw [trimWith, List.dropWhile_cons_of_neg (by simp [hhead c rfl])]
    exact trimEndWith_eq_self_iff.mpr hlast

theorem head?_trimWith {p : Char → Bool} {s : List Char} {c : Char}
    (h : (trimWith p s).head? = some c) : p c = false := by
  obtain ⟨t, ht⟩ := isPrefix_trimEndWith p (s.dropWhile p)
  have := List.head?_dropWhile_not p s
  rw [← ht, List.head?_append, show (trimEndWith p _).head? = some c from h] at this
  simpa using this

theorem getLast?_trimWith {p : Char → Bool} {s : List Char} {c : Char}
    (h : (trimWith p s).getLast? = some c) : p c = false :=
  trimEndWith_eq_self_iff.mp (trimEndWith_trimEndWith p _) c h

theorem mem_of_mem_trimWith {p : Char → Bool} {s : List Char} {c : Char}
    (h : c ∈ trimWith p s) : c ∈ s :=
  (List.dropWhile_sublist p).subset (mem_of_mem_trimEndWith h)

end AssetPack.Text
