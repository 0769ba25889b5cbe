import AssetPack.Glsl.Minify
import AssetPack.Proofs.Text.Lines

/-!
# Spacing — one rule for every space of the release variant

The release variant decides about spaces in three places: `collapseBlanks` and `dropSpaces` inside
a line, `joinCode` where two lines meet, and the trim at the end of a directive. `spaced` is the
one rule that all of them follow: go through the visible characters, remember the last one and
whether a blank has been passed since, and write one space where a blank was passed and the two
neighbours ask for it. Code asks by `needsSeparator`; a directive always asks, which is why it is
the same function with another `keep`.

The three routes are brought to that form by `dropSpaces_trim_collapseBlanks`,
`joinCode_spaced` and `trimEndWith_collapseBlanks`. That a second pass changes nothing
(`spaced_spaced`) is then a fact about `spaced` alone.
-/

set_option autoImplicit false

namespace AssetPack.Glsl

open AssetPack.Text

/-- The visible characters of a text in order. Between two neighbours stands one space if a blank
stood between them and `keep` asks for it, and nothing otherwise. `left` is the visible character
before, `gap` whether a blank has been passed since. -/
def spaced (blank : Char → Bool) (keep : Char → Char → Bool) (left : Option Char) (gap : Bool) :
    List Char → List Char
  | [] => []
  | c :: r =>
    if blank c then spaced blank keep left true r
    else if gap && left.any (keep · c) then ' ' :: c :: spaced blank keep (some c) false r
    else c :: spaced blank keep (some c) false r

variable {blank : Char → Bool} {keep : Char → Char → Bool}

/-! ## The rule by itself -/

theorem spaced_blank {c : Char} (hc : blank c = true) (left : Option Char) (gap : Bool)
    (r : List Char) :
    spaced blank keep left gap (c :: r) = spaced blank keep left true r := by
  rw [spaced, if_pos hc]

theorem spaced_visible {c : Char} (hc : blank c = false) (left : Option Char) (r : List Char) :
    spaced blank keep left false (c :: r) = c :: spaced blank keep (some c) false r := by
  rw [spaced, if_neg (by simp [hc])]
  simp

theorem spaced_none_visible {c : Char} (hc : blank c = false) (gap : Bool) (r : List Char) :
    spaced blank keep none gap (c :: r) = c :: spaced blank keep (some c) false r := by
  rw [spaced, if_neg (by simp [hc])]
  simp

theorem spaced_gap_visible {c : Char} (hc : blank c = false) (l : Char) (r : List Char) :
    spaced blank keep (some l) true (c :: r) =
      if keep l c then ' ' :: c :: spaced blank keep (some c) false r
      else c :: spaced blank keep (some c) false r := by
  rw [spaced, if_neg (by simp [hc])]
  simp

/-- Blanks in front of the first visible character leave no trace. -/
theorem spaced_none_gap (s : List Char) :
    spaced blank keep none true s = spaced blank keep none false s := by
  induction s with
  | nil => rfl
  | cons c r ih =>
    by_cases hc : blank c = true
    · rw [spaced_blank hc, spaced_blank hc]
    · rw [Bool.not_eq_true] at hc
      rw [spaced_none_visible hc, spaced_none_visible hc]

theorem spaced_none_dropWhile (gap : Bool) (s : List Char) :
    spaced blank keep none gap (s.dropWhile blank) = spaced blank keep none gap s := by
  induction s generalizing gap with
  | nil => rfl
  | cons c r ih =>
    by_cases hc : blank c = true
    · rw [List.dropWhile_cons_of_pos hc, ih, spaced_blank hc]
      cases gap with
      | false => rw [spaced_none_gap]
      | true => rfl
    · rw [List.dropWhile_cons_of_neg hc]

/-- Blanks behind the last one leave none either. -/
theorem spaced_trimEndWith (left : Option Char) (gap : Bool) (s : List Char) :
    spaced blank keep left gap (trimEndWith blank s) = spaced blank keep left gap s := by
  induction s generalizing left gap with
  | nil => rfl
  | cons c r ih =>
    rw [trimEndWith_cons]
    by_cases h : trimEndWith blank r = [] ∧ blank c = true
    · rw [if_pos h, spaced_blank h.2, ← ih, h.1]
      rfl
    · rw [if_neg h, spaced, spaced, ih, ih]

/-- A visible neighbour on the left makes no difference if no blank follows it. -/
theorem spaced_some_dropWhile (l : Char) (s : List Char) :
    spaced blank keep (some l) false (s.dropWhile blank) = spaced blank keep none false s := by
  induction s with
  | nil => rfl
  | cons c r ih =>
    by_cases hc : blank c = true
    · rw [List.dropWhile_cons_of_pos hc, ih, spaced_blank hc, spaced_none_gap]
    · rw [List.dropWhile_cons_of_neg hc, spaced_visible (by simpa using hc),
        spaced_visible (by simpa using hc)]

theorem spaced_congr {blank' : Char → Bool} {s : List Char}
    (h : ∀ c ∈ s, blank c = blank' c) (left : Option Char) (gap : Bool) :
    spaced blank keep left gap s = spaced blank' keep left gap s := by
  induction s generalizing left gap with
  | nil => rfl
  | cons c r ih =>
    have hr : ∀ d ∈ r, blank d = blank' d := fun d hd => h d (List.mem_cons_of_mem _ hd)
    rw [spaced, spaced, h c List.mem_cons_self, ih hr, ih hr]

/-- Spacing out a text that is spaced out already, by a rule that asks for no fewer spaces,
changes nothing. -/
theorem spaced_spaced (hsp : blank ' ' = true) {keep' : Char → Char → Bool}
    (hkeep : ∀ l r, keep l r = true → keep' l r = true) (left : Option Char) (gap : Bool)
    (s : List Char) :
    spaced blank keep' left false (spaced blank keep left gap s) =
      spaced blank keep left gap s := by
  induction s generalizing left gap with
  | nil => rfl
  | cons c r ih =>
    by_cases hc : blank c = true
    · rw [spaced_blank hc, ih]
    · rw [Bool.not_eq_true] at hc
      rw [spaced, if_neg (by simp [hc])]
      by_cases hg : (gap && left.any (keep · c)) = true
      · obtain ⟨l, rfl, hl⟩ : ∃ l, left = some l ∧ keep l c = true := by
          cases left with
          | none => simp at hg
          | some l => exact ⟨l, rfl, by simpa using (Bool.and_eq_true _ _ ▸ hg).2⟩
        rw [if_pos hg, spaced_blank hsp, spaced_gap_visible hc, if_pos (hkeep l c hl), ih]
      · rw [if_neg hg, spaced_visible hc, ih]

/-! ## What is visible -/

theorem filter_spaced (hsp : blank ' ' = true) (left : Option Char) (gap : Bool) (s : List Char) :
    (spaced blank keep left gap s).filter (fun c => !blank c) = s.filter fun c => !blank c := by
  induction s generalizing left gap with
  | nil => rfl
  | cons c r ih =>
    rw [spaced]
    by_cases hc : blank c = true
    · rw [if_pos hc, ih, List.filter_cons_of_neg (by simp [hc])]
    · rw [if_neg hc, List.filter_cons_of_pos (by simpa using hc)]
      split
      · rw [List.filter_cons_of_neg (by simp [hsp]), List.filter_cons_of_pos (by simpa using hc),
          ih]
      · rw [List.filter_cons_of_pos (by simpa using hc), ih]

theorem mem_of_mem_spaced {left : Option Char} {gap : Bool} {s : List Char} {c : Char}
    (h : c ∈ spaced blank keep left gap s) : c = ' ' ∨ c ∈ s := by
  induction s generalizing left gap with
  | nil => exact Or.inr h
  | cons a r ih =>
    have hcons : ∀ g, c ∈ spaced blank keep g false r → c = ' ' ∨ c ∈ a :: r :=
      fun g hg => (ih hg).imp_right (List.mem_cons_of_mem _)
    rw [spaced] at h
    split at h
    · exact (ih h).imp_right (List.mem_cons_of_mem _)
    · split at h
      · rcases List.mem_cons.mp h with rfl | h
        · exact Or.inl rfl
        · rcases List.mem_cons.mp h with rfl | h
          · exact Or.inr List.mem_cons_self
          · exact hcons _ h
      · rcases List.mem_cons.mp h with rfl | h
        · exact Or.inr List.mem_cons_self
        · exact hcons _ h

theorem spaced_none_eq_nil_iff {s : List Char} :
    spaced blank keep none false s = [] ↔ ∀ c ∈ s, blank c = true := by
  induction s with
  | nil => simp [spaced]
  | cons c r ih =>
    by_cases hc : blank c = true
    · rw [spaced_blank hc, spaced_none_gap, ih]
      simp [hc]
    · rw [spaced_none_visible (by simpa using hc)]
      simp [hc]

theorem head?_spaced (s : List Char) :
    (spaced blank keep none false s).head? = (s.filter fun c => !blank c).head? := by
  induction s with
  | nil => rfl
  | cons c r ih =>
    by_cases hc : blank c = true
    · rw [spaced_blank hc, spaced_none_gap, ih, List.filter_cons_of_neg (by simp [hc])]
    · rw [spaced_none_visible (by simpa using hc), List.filter_cons_of_pos (by simpa using hc)]
      rfl

theorem getLast?_spaced (left : Option Char) (gap : Bool) (s : List Char) :
    (spaced blank keep left gap s).getLast? = (s.filter fun c => !blank c).getLast? := by
  induction s generalizing left gap with
  | nil => rfl
  | cons c r ih =>
    rw [spaced]
    by_cases hc : blank c = true
    · rw [if_pos hc, ih, List.filter_cons_of_neg (by simp [hc])]
    · rw [if_neg hc, List.filter_cons_of_pos (by simpa using hc)]
      split
      · rw [List.getLast?_cons_cons, List.getLast?_cons, List.getLast?_cons, ih]
      · rw [List.getLast?_cons, List.getLast?_cons, ih]

/-! ## Where two texts meet -/

theorem spaced_append_blank {b : Char} (hb : blank b = true) (left : Option Char) (gap : Bool)
    (s t : List Char) :
    spaced blank keep left gap (s ++ b :: t) =
      spaced blank keep left gap s ++
        spaced blank keep ((s.filter fun c => !blank c).getLast?.or left) true t := by
  induction s generalizing left gap with
  | nil => simp [spaced, hb]
  | cons c r ih =>
    rw [List.cons_append, spaced, spaced]
    by_cases hc : blank c = true
    · rw [if_pos hc, if_pos hc, ih, List.filter_cons_of_neg (by simp [hc])]
    · have hlast : ((r.filter fun c => !blank c).getLast?.or (some c)) =
          ((c :: r).filter fun c => !blank c).getLast?.or left := by
        rw [List.filter_cons_of_pos (by simpa using hc), List.getLast?_cons]
        cases (r.filter fun c => !blank c).getLast? <;> rfl
      rw [if_neg hc, if_neg hc, ih, hlast]
      split <;> rfl

/-- After a gap, the text on the right is what it is by itself, but for the space in front. -/
theorem spaced_gap (l : Char) (t : List Char) :
    spaced blank keep (some l) true t =
      match (spaced blank keep none false t).head? with
      | none => []
      | some n =>
        if keep l n then ' ' :: spaced blank keep none false t
        else spaced blank keep none false t := by
  induction t with
  | nil => rfl
  | cons c r ih =>
    by_cases hc : blank c = true
    · rw [spaced_blank hc, spaced_blank hc, spaced_none_gap, ih]
    · rw [Bool.not_eq_true] at hc
      rw [spaced_gap_visible hc, spaced_none_visible hc]
      rfl

/-- Joining two stretches of code asks the same question as a blank inside a line. -/
theorem joinCode_spaced {b : Char} (hb : blank b = true) (s t : List Char) :
    joinCode (spaced blank needsSeparator none false s) (spaced blank needsSeparator none false t)
      = spaced blank needsSeparator none false (s ++ b :: t) := by
  rw [spaced_append_blank hb, Option.or_none, joinCode, getLast?_spaced]
  cases hl : (s.filter fun c => !blank c).getLast? with
  | none => rw [spaced_none_gap]
  | some l =>
    rw [spaced_gap]
    cases hh : (spaced blank needsSeparator none false t).head? with
    | none => rw [List.head?_eq_none_iff.mp hh]
    | some n =>
      dsimp only
      split <;> rfl

/-! ## The routes of the release variant -/

theorem ne_space_of_visible {c : Char} (hc : isLinearBlank c = false) : c ≠ ' ' := by
  rintro rfl
  exact absurd hc (by decide)

theorem dropSpaces_visible {c : Char} (hc : c ≠ ' ') (left : Option Char) (r : List Char) :
    dropSpaces left (c :: r) = c :: dropSpaces (some c) r := by
  cases left <;> cases r <;> simp [dropSpaces, hc]

/-- A line without blanks at its end is spaced out by collapsing its blanks and dropping the
spaces that separate nothing, with a visible character on the left and with a blank passed. -/
theorem dropSpaces_collapseBlanks {s : List Char}
    (hend : ∀ c, s.getLast? = some c → isLinearBlank c = false) {l : Char}
    (hl : isLinearBlank l = false) :
    dropSpaces (some l) (collapseBlanks false s) =
        spaced isLinearBlank needsSeparator (some l) false s ∧
      (s ≠ [] → dropSpaces (some l) (' ' :: collapseBlanks true s) =
        spaced isLinearBlank needsSeparator (some l) true s) := by
  induction s generalizing l with
  | nil => exact ⟨rfl, fun h => absurd rfl h⟩
  | cons c r ih =>
    by_cases hc : isLinearBlank c = true
    · have hr : r ≠ [] := by
        rintro rfl
        exact absurd (hend c rfl) (by simp [hc])
      have hend' : ∀ d, r.getLast? = some d → isLinearBlank d = false := by
        intro d hd
        refine hend d ?_
        rw [List.getLast?_cons, hd]
        rfl
      obtain ⟨-, hgap⟩ := ih hend' hl
      rw [spaced_blank hc, spaced_blank hc, collapseBlanks, collapseBlanks, if_pos hc, if_pos hc]
      exact ⟨hgap hr, fun _ => hgap hr⟩
    · rw [Bool.not_eq_true] at hc
      have hend' : ∀ d, r.getLast? = some d → isLinearBlank d = false := by
        intro d hd
        refine hend d ?_
        rw [List.getLast?_cons, hd]
        rfl
      obtain ⟨hnone, -⟩ := ih hend' hc
      have hsp := ne_space_of_visible hc
      rw [collapseBlanks, collapseBlanks, if_neg (by simp [hc]), if_neg (by simp [hc])]
      refine ⟨?_, fun _ => ?_⟩
      · rw [dropSpaces_visible hsp, hnone, spaced_visible hc]
      · -- The space was collapsed before `c` is seen, and `dropSpaces` decides on both sides of it.
        rw [dropSpaces, dropSpaces_visible hsp, hnone, spaced_gap_visible hc]
        have hls := ne_space_of_visible hl
        by_cases hk : needsSeparator l c = true <;> simp [hk, hls, hsp]

theorem dropWhile_collapseBlanks (inRun : Bool) (s : List Char) :
    (collapseBlanks inRun s).dropWhile isBlank = collapseBlanks false (s.dropWhile isBlank) := by
  induction s generalizing inRun with
  | nil => rfl
  | cons c r ih =>
    rw [collapseBlanks]
    by_cases hc : isLinearBlank c = true
    · rw [if_pos hc, List.dropWhile_cons_of_pos (isBlank_of_isLinearBlank hc)]
      cases inRun with
      | true => exact ih true
      | false =>
        rw [if_neg (by simp), List.dropWhile_cons_of_pos isBlank_space]
        exact ih true
    · rw [if_neg hc]
      by_cases hb : isBlank c = true
      · rw [List.dropWhile_cons_of_pos hb, List.dropWhile_cons_of_pos hb]
        exact ih false
      · rw [List.dropWhile_cons_of_neg hb, List.dropWhile_cons_of_neg hb, collapseBlanks, if_neg hc]

theorem all_blank_collapseBlanks {inRun : Bool} {s : List Char} :
    (∀ c ∈ collapseBlanks inRun s, isBlank c = true) ↔ ∀ c ∈ s, isBlank c = true := by
  induction s generalizing inRun with
  | nil => simp [collapseBlanks]
  | cons c r ih =>
    rw [collapseBlanks]
    by_cases hc : isLinearBlank c = true
    · have hb := isBlank_of_isLinearBlank hc
      cases inRun <;> simp [hc, hb, ih]
    · simp [hc, ih]

theorem trimEnd_collapseBlanks (inRun : Bool) (s : List Char) :
    trimEnd (collapseBlanks inRun s) = collapseBlanks inRun (trimEnd s) := by
  have hnil : ∀ (inRun : Bool) (r : List Char),
      trimEndWith isBlank (collapseBlanks inRun r) = [] ↔ trimEndWith isBlank r = [] := by
    intro inRun r
    rw [trimEndWith_eq_nil_iff, trimEndWith_eq_nil_iff, all_blank_collapseBlanks]
  unfold trimEnd
  induction s generalizing inRun with
  | nil => rfl
  | cons c r ih =>
    by_cases hcr : trimEndWith isBlank (c :: r) = []
    · rw [(hnil inRun (c :: r)).mpr hcr, hcr]
      rfl
    · have hstep : trimEndWith isBlank (c :: r) = c :: trimEndWith isBlank r := by
        rw [trimEndWith_cons] at hcr ⊢
        split at hcr
        · exact absurd rfl hcr
        · rename_i h
          rw [if_neg h]
      rw [hstep, collapseBlanks, collapseBlanks]
      by_cases hc : isLinearBlank c = true
      · rw [if_pos hc, if_pos hc]
        have hr : trimEndWith isBlank r ≠ [] := by
          intro hr
          rw [trimEndWith_cons, if_pos ⟨hr, isBlank_of_isLinearBlank hc⟩] at hcr
          exact hcr rfl
        cases inRun with
        | true => exact ih true
        | false =>
          rw [if_neg (by simp), if_neg (by simp), trimEndWith_cons,
            if_neg fun h => hr ((hnil true r).mp h.1), ih]
      · rw [if_neg hc, if_neg hc, trimEndWith_cons, if_neg, ih]
        rintro ⟨h, hb⟩
        rw [trimEndWith_cons, if_pos ⟨(hnil false r).mp h, hb⟩] at hcr
        exact hcr rfl

/-- A line of code, spaced out. -/
theorem dropSpaces_trim_collapseBlanks (line : List Char) :
    dropSpaces none (trim (collapseBlanks false line)) =
      spaced isLinearBlank needsSeparator none false (trim line) := by
  have hcomm : trim (collapseBlanks false line) = collapseBlanks false (trim line) := by
    unfold trim trimWith
    rw [dropWhile_collapseBlanks]
    exact trimEnd_collapseBlanks false _
  rw [hcomm]
  have hfirst : ∀ c, (trim line).head? = some c → isLinearBlank c = false :=
    fun c hc => not_isLinearBlank (head?_trimWith hc)
  have hlast : ∀ c, (trim line).getLast? = some c → isLinearBlank c = false :=
    fun c hc => not_isLinearBlank (getLast?_trimWith hc)
  cases hs : trim line with
  | nil => rfl
  | cons c r =>
    rw [hs] at hfirst hlast
    have hc := hfirst c rfl
    have hend : ∀ d, r.getLast? = some d → isLinearBlank d = false := by
      intro d hd
      refine hlast d ?_
      rw [List.getLast?_cons, hd]
      rfl
    rw [collapseBlanks, if_neg (by simp [hc]), dropSpaces_visible (ne_space_of_visible hc),
      (dropSpaces_collapseBlanks hend hc).1, spaced_visible hc]

/-- The rest of a directive, spaced out: every run of blanks is one space. -/
theorem trimEndWith_collapseBlanks (l : Char) (s : List Char) :
    trimEndWith (· == ' ') (collapseBlanks false s) =
        spaced isLinearBlank (fun _ _ => true) (some l) false s ∧
      trimEndWith (· == ' ') (' ' :: collapseBlanks true s) =
        spaced isLinearBlank (fun _ _ => true) (some l) true s := by
  induction s generalizing l with
  | nil => exact ⟨rfl, rfl⟩
  | cons c r ih =>
    by_cases hc : isLinearBlank c = true
    · rw [spaced_blank hc, spaced_blank hc, collapseBlanks, collapseBlanks, if_pos hc, if_pos hc]
      exact ⟨(ih l).2, (ih l).2⟩
    · rw [Bool.not_eq_true] at hc
      have hstep : trimEndWith (· == ' ') (c :: collapseBlanks false r) =
          c :: spaced isLinearBlank (fun _ _ => true) (some c) false r := by
        rw [trimEndWith_cons, if_neg (by simp [ne_space_of_visible hc]), (ih c).1]
      rw [collapseBlanks, collapseBlanks, if_neg (by simp [hc]), if_neg (by simp [hc])]
      refine ⟨?_, ?_⟩
      · rw [hstep, spaced_visible hc]
      · rw [trimEndWith_cons, hstep, if_neg (by simp), spaced_gap_visible hc, if_pos rfl]

end AssetPack.Glsl
