import AssetPack.Proofs.Glsl.Markers
import AssetPack.Proofs.Glsl.NormalForm
import AssetPack.Proofs.Glsl.Positions

/-!
# Which characters come to stand side by side

Where the release variant drops a space it moves two characters together, and together they may
spell what neither spelled alone. `formsNoOperator_iff` says for which sources no operator and no
mark of a comment arises that way: all but one of them are among the pairs that `needsSeparator`
keeps apart, wherever the blanks between them come from. The one is `*=`.

What stands behind a character is read off twice. `reaches` reads it off the stripped text: the
next visible character, if nothing but blanks that code loses lie between the two and no separator
is asked for. `seats` reads it off the text that is written: the character right behind, on lines
that are no directives. `seated_compress` says that these agree, pass by pass: spacing out a line
(`fronts_spaced`), joining two of them (`fronts_joinCode`) and writing them all (`seats_written`).

They disagree in one place, and the theorem is not about it: code that ends in front of a directive
does not meet the `#`.
-/

set_option autoImplicit false

namespace AssetPack.Glsl

open AssetPack.Text

/-! ## Read off the stripped text -/

/-- Blanks of which code keeps at most one space: linear ones, or any with a line end. -/
def Vanishes (gap : List Char) : Prop := '\n' ∈ gap ∨ ∀ c ∈ gap, isLinearBlank c = true

instance (gap : List Char) : Decidable (Vanishes gap) :=
  decidable_of_iff ('\n' ∈ gap ∨ gap.all isLinearBlank = true) (by rw [Vanishes, List.all_eq_true])

/-- The second character, if it may stand right behind the first. -/
def meet (c : Char) (next : Option Char) : Option Char := next.filter fun d => !needsSeparator c d

/-- The visible character that code brings right behind a character, in front of the text `r`. -/
def reach (c : Char) (r : List Char) : Option Char :=
  if r.takeWhile isBlank = [] then r.head?
  else if Vanishes (r.takeWhile isBlank) then meet c (visible r).head?
  else none

/-- The visible characters of a text, each with the one that it reaches. -/
def reaches : List Char → List (Char × Option Char)
  | [] => []
  | c :: r => if isBlank c then reaches r else (c, reach c r) :: reaches r

/-- The visible characters of one line, with the first visible character of the lines behind. -/
def reachesFrom (after : Option Char) : List Char → List (Char × Option Char)
  | [] => []
  | c :: r =>
    if isBlank c then reachesFrom after r
    else (c, if visible r = [] then meet c after else reach c r) :: reachesFrom after r

/-- The same line by line. -/
def reachesLines : List (List Char) → List (Char × Option Char)
  | [] => []
  | line :: rest => reachesFrom (rest.flatMap visible).head? line ++ reachesLines rest

theorem meet_some (c d : Char) : meet c (some d) = if needsSeparator c d then none else some d := by
  by_cases h : needsSeparator c d = true <;> simp [meet, h]

theorem reaches_visible {c : Char} (hc : isBlank c = false) (r : List Char) :
    reaches (c :: r) = (c, reach c r) :: reaches r := by
  rw [reaches, if_neg (by simp [hc])]

theorem takeWhile_isBlank_of_all {s : List Char} (h : ∀ c ∈ s, isBlank c = true) (t : List Char) :
    (s ++ t).takeWhile isBlank = s ++ t.takeWhile isBlank := by
  rw [List.takeWhile_append, List.takeWhile_eq_self_iff.mpr h, if_pos rfl]

theorem visible_eq_nil {s : List Char} : visible s = [] ↔ ∀ c ∈ s, isBlank c = true := by
  rw [visible, List.filter_eq_nil_iff]
  simp

/-- Up to the first visible character only the text in front of it counts. -/
theorem reach_append {r : List Char} (h : ¬ ∀ d ∈ r, isBlank d = true) (c : Char) (t : List Char) :
    reach c (r ++ t) = reach c r := by
  have htake : (r ++ t).takeWhile isBlank = r.takeWhile isBlank := by
    rw [List.takeWhile_append, if_neg]
    intro hlength
    exact h (List.takeWhile_eq_self_iff.mp ((List.takeWhile_prefix isBlank).eq_of_length hlength))
  have hne : r ≠ [] := fun hr => h (by simp [hr])
  have hvisible : visible r ≠ [] := fun hv => h (visible_eq_nil.mp hv)
  rw [reach, reach, htake, visible_append, List.head?_append_of_ne_nil _ hne,
    List.head?_append_of_ne_nil _ hvisible]

theorem reach_of_all {r : List Char} (h : ∀ d ∈ r, isBlank d = true) (c : Char) :
    reach c r = none := by
  rw [reach, List.takeWhile_eq_self_iff.mpr h, visible_eq_nil.mpr h]
  cases r <;> simp [meet]

theorem reach_append_lf {r : List Char} (h : ∀ d ∈ r, isBlank d = true) (c : Char)
    (t : List Char) : reach c (r ++ '\n' :: t) = meet c (visible t).head? := by
  have htake : (r ++ '\n' :: t).takeWhile isBlank = r ++ '\n' :: t.takeWhile isBlank := by
    rw [takeWhile_isBlank_of_all h, List.takeWhile_cons_of_pos isBlank_lf]
  rw [reach, htake, if_neg (by simp), if_pos (.inl (by simp)), visible_append,
    visible_eq_nil.mpr h, visible_cons_of_blank isBlank_lf, List.nil_append]

theorem reaches_append_lf (line rest : List Char) :
    reaches (line ++ '\n' :: rest) = reachesFrom (visible rest).head? line ++ reaches rest := by
  induction line with
  | nil => rfl
  | cons c line ih =>
    rw [List.cons_append, reaches, reachesFrom, ih]
    split
    · rfl
    · rw [List.cons_append]
      refine congrArg (fun next => (c, next) :: _) ?_
      split
      · rename_i hall
        exact reach_append_lf (visible_eq_nil.mp hall) c rest
      · rename_i hall
        exact reach_append (mt visible_eq_nil.mpr hall) c _

theorem reaches_line (line : List Char) : reaches line = reachesFrom none line := by
  induction line with
  | nil => rfl
  | cons c line ih =>
    rw [reaches, reachesFrom, ih]
    split
    · rfl
    · refine congrArg (fun next => (c, next) :: _) ?_
      split
      · rename_i hall
        exact reach_of_all (visible_eq_nil.mp hall) c
      · rfl

theorem reaches_eq_reachesLines (s : List Char) : reaches s = reachesLines (splitLf s) := by
  have hboth : reaches s = reachesLines (splitLf s) ∧ visible s = (splitLf s).flatMap visible := by
    refine splitLf_induction
      (P := fun s lines => reaches s = reachesLines lines ∧ visible s = lines.flatMap visible)
      ?_ ?_ s
    · intro line _
      simp [reachesLines, reaches_line]
    · rintro line rest - ⟨hreaches, hvisible⟩
      rw [reaches_append_lf, reachesLines, ← hreaches, ← hvisible, visible_append,
        visible_cons_of_blank isBlank_lf, List.flatMap_cons, ← hvisible]
      exact ⟨rfl, rfl⟩
  exact hboth.1

/-! ## Read off the text that is written -/

/-- A visible character of the release variant. `next` is the visible character right behind it,
which is not asked for on a directive. -/
structure Seat where
  char : Char
  next : Option Char
  directive : Bool
  deriving DecidableEq

/-- The visible characters of a text that continues a line of kind `k`. -/
def seats (k : LineKind) : List Char → List Seat
  | [] => []
  | c :: r =>
    if isBlank c then seats (k.push c) r
    else if k.push c = .directive then ⟨c, none, true⟩ :: seats (k.push c) r
    else ⟨c, front r, false⟩ :: seats (k.push c) r

/-- The visible characters of a line of code, each with the visible character right behind it. The
last one meets the one in front of which the line comes to stand. -/
def fronts (after : Option Char) : List Char → List (Char × Option Char)
  | [] => []
  | c :: r =>
    if isBlank c then fronts after r
    else (c, if r = [] then meet c after else front r) :: fronts after r

/-- The first character of the next line, if that is code. -/
def follows : List TidyLine → Option Char
  | .code next :: _ => next.head?
  | _ => none

/-- The seats of tidied lines. -/
def seatsOf : List TidyLine → List Seat
  | [] => []
  | .directive text :: rest => (visible text).map (fun c => ⟨c, none, true⟩) ++ seatsOf rest
  | .code text :: rest =>
    (fronts (follows rest) text).map (fun p => ⟨p.1, p.2, false⟩) ++ seatsOf rest

/-- The character of the stripped text has this seat. -/
structure Seated (p : Char × Option Char) (q : Seat) : Prop where
  char : q.char = p.1
  next : q.directive = false → ∀ d, d ≠ '#' → (q.next = some d ↔ p.2 = some d)

/-! ## Spacing out a line -/

theorem exists_append_cons {p : Char → Bool} {r : List Char} (h : ¬ ∀ d ∈ r, p d = true) :
    ∃ w n t, r = w ++ n :: t ∧ (∀ d ∈ w, p d = true) ∧ p n = false := by
  have hsplit := List.takeWhile_append_dropWhile (p := p) (l := r)
  cases hrest : r.dropWhile p with
  | nil =>
    rw [hrest, List.append_nil] at hsplit
    exact absurd (List.takeWhile_eq_self_iff.mp hsplit) h
  | cons n t =>
    rw [hrest] at hsplit
    refine ⟨_, n, t, hsplit.symm, fun d hd => List.mem_takeWhile_imp hd, ?_⟩
    have hn := List.head?_dropWhile_not p r
    rw [hrest] at hn
    simpa using hn

theorem spaced_linear_append {w : List Char} (hw : ∀ d ∈ w, isLinearBlank d = true) (l : Char)
    (gap : Bool) (t : List Char) :
    spaced isLinearBlank needsSeparator (some l) gap (w ++ t) =
      spaced isLinearBlank needsSeparator (some l) (gap || !w.isEmpty) t := by
  induction w generalizing gap with
  | nil => simp
  | cons c w ih =>
    rw [List.cons_append, spaced_blank (hw c List.mem_cons_self),
      ih fun d hd => hw d (List.mem_cons_of_mem _ hd)]
    simp

/-- Spacing out brings the character that is reached right behind. -/
theorem front_spaced {r : List Char} (hlf : '\n' ∉ r) (h : ¬ ∀ d ∈ r, isBlank d = true)
    (c : Char) : front (spaced isLinearBlank needsSeparator (some c) false r) = reach c r := by
  obtain ⟨w, n, t, rfl, hw, hn⟩ :=
    exists_append_cons fun hr => h fun d hd => isBlank_of_isLinearBlank (hr d hd)
  have hblank : ∀ d ∈ w, isBlank d = true := fun d hd => isBlank_of_isLinearBlank (hw d hd)
  rw [spaced_linear_append hw, Bool.false_or, reach, takeWhile_isBlank_of_all hblank,
    visible_append, visible_eq_nil.mpr hblank, List.nil_append]
  by_cases hb : isBlank n = true
  · -- The blank `n` stays, and nothing is reached past it.
    have hgap : ¬ Vanishes (w ++ n :: t.takeWhile isBlank) := by
      rintro (hmem | hlinear)
      · refine hlf ?_
        simp only [List.mem_append, List.mem_cons] at hmem ⊢
        exact hmem.imp_right (Or.imp_right fun ht => (List.takeWhile_prefix _).subset ht)
      · exact absurd (hlinear n (by simp)) (by simp [hn])
    rw [List.takeWhile_cons_of_pos hb, if_neg (by simp), if_neg hgap]
    cases w with
    | nil =>
      rw [List.isEmpty_nil, Bool.not_true, spaced_visible hn, front_cons, if_pos hb]
    | cons x w =>
      rw [List.isEmpty_cons, Bool.not_false, spaced_gap_visible hn]
      split
      · rw [front_cons, if_pos isBlank_space]
      · rw [front_cons, if_pos hb]
  · rw [Bool.not_eq_true] at hb
    rw [List.takeWhile_cons_of_neg (by simp [hb]), List.append_nil, visible_cons hb,
      List.head?_cons]
    cases w with
    | nil =>
      rw [List.isEmpty_nil, Bool.not_true, spaced_visible hn, front_cons, if_neg (by simp [hb]),
        if_pos rfl]
      rfl
    | cons x w =>
      rw [List.isEmpty_cons, Bool.not_false, spaced_gap_visible hn, if_neg (List.cons_ne_nil x w),
        if_pos (show Vanishes (x :: w) from .inr hw)]
      split
      · rename_i hsep
        rw [front_cons, if_pos isBlank_space, meet_some, if_pos hsep]
      · rename_i hsep
        rw [front_cons, if_neg (by simp [hb]), meet_some, if_neg hsep]

theorem fronts_spaced {t : List Char} (hlf : '\n' ∉ t)
    (hlast : ∀ c, t.getLast? = some c → isBlank c = false) (left : Option Char) (gap : Bool)
    (after : Option Char) :
    fronts after (spaced isLinearBlank needsSeparator left gap t) = reachesFrom after t := by
  induction t generalizing left gap with
  | nil => rfl
  | cons c r ih =>
    have hlf' : '\n' ∉ r := fun h => hlf (List.mem_cons_of_mem _ h)
    have hlast' : ∀ d, r.getLast? = some d → isBlank d = false := by
      intro d hd
      refine hlast d ?_
      rw [List.getLast?_cons, hd]
      rfl
    have hrest := ih hlf' hlast'
    by_cases hc : isLinearBlank c = true
    · rw [spaced_blank hc, reachesFrom, if_pos (isBlank_of_isLinearBlank hc)]
      exact hrest left true
    · -- The space that may be written in front of `c` is passed over.
      have hspace : fronts after (spaced isLinearBlank needsSeparator left gap (c :: r)) =
          fronts after (c :: spaced isLinearBlank needsSeparator (some c) false r) := by
        rw [spaced, if_neg hc]
        split
        · rw [fronts, if_pos isBlank_space]
        · rfl
      rw [hspace, fronts, reachesFrom, hrest]
      by_cases hb : isBlank c = true
      · rw [if_pos hb, if_pos hb]
      · rw [if_neg hb, if_neg hb]
        by_cases hr : r = []
        · subst hr
          have hnil : visible [] = [] := rfl
          rw [spaced, if_pos rfl, if_pos hnil]
        · -- The last character is visible, so `r` is written with something in it.
          have hvisible : isBlank (r.getLast hr) = false :=
            hlast' _ (List.getLast?_eq_some_getLast hr)
          have hmem : r.getLast hr ∈ r := List.getLast_mem hr
          generalize r.getLast hr = d at hvisible hmem
          have hnot : ¬ ∀ e ∈ r, isBlank e = true := fun h => by simp [h d hmem] at hvisible
          have hne : spaced isLinearBlank needsSeparator (some c) false r ≠ [] := by
            intro hnil
            have hfilter := @filter_spaced isLinearBlank needsSeparator isLinearBlank_space (some c)
              false r
            rw [hnil, List.filter_nil] at hfilter
            have hlinear := List.filter_eq_nil_iff.mp hfilter.symm d hmem
            simp [not_isLinearBlank hvisible] at hlinear
          rw [if_neg hne, if_neg (mt visible_eq_nil.mp hnot), front_spaced hlf' hnot]

theorem reachesFrom_append_blanks {w : List Char} (hw : ∀ c ∈ w, isBlank c = true)
    (after : Option Char) (t : List Char) : reachesFrom after (w ++ t) = reachesFrom after t := by
  induction w with
  | nil => rfl
  | cons c w ih =>
    rw [List.cons_append, reachesFrom, if_pos (hw c List.mem_cons_self),
      ih fun d hd => hw d (List.mem_cons_of_mem _ hd)]

theorem reachesFrom_blanks_append {w : List Char} (hw : ∀ c ∈ w, isBlank c = true)
    (after : Option Char) (t : List Char) : reachesFrom after (t ++ w) = reachesFrom after t := by
  induction t with
  | nil =>
    have hnil := reachesFrom_append_blanks hw after []
    rwa [List.append_nil] at hnil
  | cons c t ih =>
    rw [List.cons_append, reachesFrom, reachesFrom, ih]
    split
    · rfl
    · refine congrArg (fun next => (c, next) :: _) ?_
      have hvisible : visible (t ++ w) = visible t := by
        rw [visible_append, visible_eq_nil.mpr hw, List.append_nil]
      rw [hvisible]
      split
      · rfl
      · rename_i hall
        rw [reach_append (mt visible_eq_nil.mpr hall)]

/-- Trimming a line changes nothing about what it reaches. -/
theorem reachesFrom_trim (after : Option Char) (line : List Char) :
    reachesFrom after (trim line) = reachesFrom after line := by
  obtain ⟨blanks, hend, hblanks, -⟩ := isTrimmed_trimEnd (line.dropWhile isBlank)
  have hfront := List.takeWhile_append_dropWhile (p := isBlank) (l := line)
  rw [← hfront, reachesFrom_append_blanks fun c hc => List.mem_takeWhile_imp hc, hfront]
  conv_rhs => rw [hend, reachesFrom_blanks_append hblanks]
  rfl

/-! ## Joining two lines -/

theorem fronts_append {s t : List Char} {after after' : Option Char} (ht : t ≠ [])
    (hmeet : ∀ l, s.getLast? = some l → front t = meet l after') :
    fronts after (s ++ t) = fronts after' s ++ fronts after t := by
  induction s with
  | nil => rfl
  | cons c r ih =>
    have hrest := ih fun l hl => hmeet l (by rw [List.getLast?_cons, hl]; rfl)
    rw [List.cons_append, fronts, fronts, hrest]
    split
    · rfl
    · rw [List.cons_append]
      congr 2
      rw [if_neg (by simp [ht])]
      split
      · rename_i hr
        subst hr
        exact hmeet c rfl
      · rename_i hr
        rw [front, front, List.head?_append_of_ne_nil _ hr]

/-- Two stretches of code are joined by the rule that holds inside a line. -/
theorem fronts_joinCode {s t : List Char} (ht : t ≠ [])
    (hhead : ∀ c, t.head? = some c → isBlank c = false) (after : Option Char) :
    fronts after (joinCode s t) = fronts t.head? s ++ fronts after t := by
  obtain ⟨d, hd⟩ : ∃ d, t.head? = some d := ⟨_, List.head?_eq_some_head ht⟩
  have hfront : front t = some d := by
    rw [front, hd]
    simp [hhead d hd]
  have hspace : fronts after (' ' :: t) = fronts after t := by
    rw [fronts, if_pos isBlank_space]
  unfold joinCode
  rw [hd]
  cases hlast : s.getLast? with
  | none =>
    rw [List.getLast?_eq_none_iff.mp hlast]
    rfl
  | some l =>
    dsimp only
    split
    · rename_i hsep
      rw [fronts_append (List.cons_ne_nil _ _), hspace]
      intro l' hl'
      rw [hlast] at hl'
      cases hl'
      rw [front_cons, if_pos isBlank_space, meet_some, if_pos hsep]
    · rename_i hsep
      refine fronts_append ht ?_
      intro l' hl'
      rw [hlast] at hl'
      cases hl'
      rw [hfront, meet_some, if_neg hsep]

theorem seatsOf_consCode {inCode : Bool} {lines : List TidyLine} (h : Settled inCode lines)
    (text : List Char) :
    seatsOf (consCode text lines) = seatsOf (.code text :: lines) := by
  cases lines with
  | nil => rfl
  | cons line rest =>
    cases line with
    | directive next => rfl
    | code next =>
      obtain ⟨hne, hnext, -, -, -⟩ := h
      rw [consCode, seatsOf, fronts_joinCode hne hnext.head, List.map_append, seatsOf, seatsOf,
        List.append_assoc]
      rfl

theorem follows_consCode {text : List Char} (h : text ≠ []) (lines : List TidyLine) :
    follows (consCode text lines) = text.head? := by
  cases lines with
  | nil => rfl
  | cons line rest =>
    cases line with
    | directive next => rfl
    | code next => exact head?_joinCode h next

/-- Joining lines moves no seat. -/
theorem seatsOf_joinLines {lines : List TidyLine} (h : ∀ line ∈ lines, line.Tidy)
    (inCode : Bool) :
    seatsOf (joinLines (settleLines inCode lines)) = seatsOf (settleLines inCode lines) ∧
      follows (joinLines (settleLines inCode lines)) = follows (settleLines inCode lines) := by
  induction lines generalizing inCode with
  | nil => exact ⟨rfl, rfl⟩
  | cons line rest ih =>
    have hrest : ∀ l ∈ rest, l.Tidy := fun l hl => h l (List.mem_cons_of_mem _ hl)
    cases line with
    | directive text =>
      rw [settleLines, joinLines, seatsOf, seatsOf, (ih hrest false).1]
      exact ⟨rfl, rfl⟩
    | code text =>
      cases text with
      | nil => exact ih hrest inCode
      | cons c text =>
        rw [settleLines]
        split
        · rw [joinLines, seatsOf, seatsOf, (ih hrest false).1]
          exact ⟨rfl, rfl⟩
        · obtain ⟨hseats, hfollows⟩ := ih hrest true
          rw [joinLines, seatsOf_consCode (settled_joinLines hrest true), seatsOf, seatsOf, hseats,
            hfollows, follows_consCode (List.cons_ne_nil c text)]
          exact ⟨rfl, rfl⟩

/-! ## Tidying the lines -/

theorem map_fst_reachesFrom (after : Option Char) (line : List Char) :
    (reachesFrom after line).map Prod.fst = visible line := by
  induction line with
  | nil => rfl
  | cons c r ih =>
    by_cases hc : isBlank c = true
    · rw [reachesFrom, if_pos hc, ih, visible_cons_of_blank hc]
    · rw [reachesFrom, if_neg hc, List.map_cons, ih, visible_cons (by simpa using hc)]

theorem visible_collapseBlanks (inRun : Bool) (s : List Char) :
    visible (collapseBlanks inRun s) = visible s := by
  induction s generalizing inRun with
  | nil => rfl
  | cons c r ih =>
    rw [collapseBlanks]
    by_cases hc : isLinearBlank c = true
    · rw [if_pos hc, visible_cons_of_blank (isBlank_of_isLinearBlank hc)]
      cases inRun with
      | true => exact ih true
      | false =>
        rw [if_neg (by simp), visible_cons_of_blank isBlank_space]
        exact ih true
    · rw [if_neg hc]
      by_cases hb : isBlank c = true
      · rw [visible_cons_of_blank hb, visible_cons_of_blank hb, ih]
      · rw [Bool.not_eq_true] at hb
        rw [visible_cons hb, visible_cons hb, ih]

/-- A directive is tidied with its visible characters, and begins with `#`. -/
theorem visible_of_isDirectiveLine {line : List Char} (h : isDirectiveLine line = true) :
    ∃ text, TidyLine.ofLine line = .directive ('#' :: text) ∧
      visible ('#' :: text) = visible line := by
  obtain ⟨r, hr, hof⟩ := ofLine_of_isDirectiveLine h
  refine ⟨_, hof, ?_⟩
  rw [← visible_dropWhile line, hr, visible_cons isBlank_hash, visible_cons isBlank_hash,
    visible_collapseBlanks, visible_dropWhile]

/-- A directive takes its seats without a neighbour. -/
theorem seated_directive {reached : List (Char × Option Char)} {text : List Char}
    (h : reached.map Prod.fst = visible text) :
    List.Forall₂ Seated reached ((visible text).map fun c => ⟨c, none, true⟩) := by
  rw [← h, List.map_map, List.forall₂_map_right_iff, List.forall₂_same]
  exact fun p _ => ⟨rfl, fun hd => absurd hd (by simp)⟩

theorem reachesFrom_seated {after after' : Option Char}
    (h : ∀ d, d ≠ '#' → (after' = some d ↔ after = some d)) (line : List Char) :
    List.Forall₂ Seated (reachesFrom after line)
      ((reachesFrom after' line).map fun p => ⟨p.1, p.2, false⟩) := by
  have hmeet : ∀ c d, d ≠ '#' → (meet c after' = some d ↔ meet c after = some d) := by
    intro c d hd
    rw [meet, meet, Option.filter_eq_some_iff, Option.filter_eq_some_iff, h d hd]
  induction line with
  | nil => exact .nil
  | cons c r ih =>
    rw [reachesFrom, reachesFrom]
    split
    · exact ih
    · refine .cons ⟨rfl, fun _ d hd => ?_⟩ ih
      dsimp only
      split
      · exact hmeet c d hd
      · rfl

theorem map_fst_fronts (after : Option Char) (text : List Char) :
    (fronts after text).map Prod.fst = visible text := by
  induction text with
  | nil => rfl
  | cons c r ih =>
    by_cases hc : isBlank c = true
    · rw [fronts, if_pos hc, ih, visible_cons_of_blank hc]
    · rw [fronts, if_neg hc, List.map_cons, ih, visible_cons (by simpa using hc)]

/-- Code is tidied with what its visible characters reach. -/
theorem exists_ofLine_code {line : List Char} (hlf : '\n' ∉ line)
    (h : isDirectiveLine line = false) :
    ∃ text, TidyLine.ofLine line = .code text ∧ visible text = visible line ∧
      (∀ c, text.head? = some c → isBlank c = false) ∧
      ∀ after, fronts after text = reachesFrom after line := by
  have hfronts : ∀ after, fronts after
      (spaced isLinearBlank needsSeparator none false (trim line)) = reachesFrom after line := by
    intro after
    have htrim : '\n' ∉ trim line := fun hc => hlf (mem_of_mem_trimWith hc)
    rw [fronts_spaced htrim fun c => getLast?_trimWith, reachesFrom_trim]
  refine ⟨_, ofLine_of_not_isDirectiveLine h, ?_, ?_, hfronts⟩
  · rw [← map_fst_fronts none, hfronts, map_fst_reachesFrom]
  · intro c hc
    rw [head?_spaced] at hc
    cases hs : trim line with
    | nil =>
      rw [hs] at hc
      exact absurd hc (by simp)
    | cons d s =>
      have hd : isBlank d = false := head?_trimWith (s := line) (congrArg List.head? hs)
      rw [hs, List.filter_cons_of_pos (by simp [not_isLinearBlank hd])] at hc
      rwa [← Option.some.inj hc]

/-- The visible characters of the lines have their seats on the tidied lines. -/
theorem seated_settleLines {lines : List (List Char)} (hlf : ∀ line ∈ lines, '\n' ∉ line)
    (inCode : Bool) :
    List.Forall₂ Seated (reachesLines lines)
        (seatsOf (settleLines inCode (lines.map TidyLine.ofLine))) ∧
      ∀ d, d ≠ '#' → (follows (settleLines inCode (lines.map TidyLine.ofLine)) = some d ↔
        (lines.flatMap visible).head? = some d) := by
  induction lines generalizing inCode with
  | nil => exact ⟨.nil, fun d _ => Iff.rfl⟩
  | cons line rest ih =>
    have hrest := ih fun l hl => hlf l (List.mem_cons_of_mem _ hl)
    -- A line that is written as a directive begins with `#`, which is not asked about.
    have hdirective : ∀ text, visible ('#' :: text) = visible line →
        List.Forall₂ Seated (reachesLines (line :: rest)) (seatsOf
            (.directive ('#' :: text) :: settleLines false (rest.map TidyLine.ofLine))) ∧
          ∀ d, d ≠ '#' → (none = some d ↔ ((line :: rest).flatMap visible).head? = some d) := by
      intro text hvisible
      constructor
      · rw [reachesLines, seatsOf]
        refine List.rel_append (seated_directive ?_) (hrest false).1
        rw [map_fst_reachesFrom, hvisible]
      · intro d hd
        rw [List.flatMap_cons, ← hvisible, visible_cons isBlank_hash, List.cons_append,
          List.head?_cons, Option.some.injEq]
        exact iff_of_false (by simp) (Ne.symm hd)
    rw [List.map_cons]
    by_cases hd : isDirectiveLine line = true
    · obtain ⟨text, hof, hvisible⟩ := visible_of_isDirectiveLine hd
      rw [hof, settleLines]
      exact hdirective text hvisible
    · obtain ⟨text, hof, hvisible, hhead, hfronts⟩ :=
        exists_ofLine_code (hlf line List.mem_cons_self) (by simpa using hd)
      rw [hof]
      cases text with
      | nil =>
        have hnil : visible line = [] := hvisible.symm
        have hreaches : reachesFrom (rest.flatMap visible).head? line = [] := (hfronts _).symm
        rw [settleLines, reachesLines, hreaches, List.flatMap_cons, hnil]
        exact hrest inCode
      | cons c text =>
        rw [settleLines]
        split
        · rename_i hc
          rw [Bool.and_eq_true, decide_eq_true_eq] at hc
          obtain ⟨rfl, -⟩ := hc
          exact hdirective text hvisible
        · obtain ⟨hseated, hfollows⟩ := hrest true
          constructor
          · rw [reachesLines, seatsOf, hfronts]
            exact List.rel_append (reachesFrom_seated hfollows line) hseated
          · intro d _
            rw [List.flatMap_cons, ← hvisible, visible_cons (hhead c rfl)]
            rfl

/-! ## Writing the lines -/

theorem seats_append_lf {line : List Char} (h : '\n' ∉ line) (k : LineKind) (rest : List Char) :
    seats k (line ++ '\n' :: rest) = seats k line ++ seats .blank rest := by
  induction line generalizing k with
  | nil =>
    have hlf : seats k ('\n' :: rest) = seats .blank rest := by
      rw [seats, if_pos isBlank_lf, push_lf]
    rw [List.nil_append, hlf]
    rfl
  | cons c line ih =>
    have hfront : front (line ++ '\n' :: rest) = front line := by
      cases line with
      | nil => rfl
      | cons d line => rfl
    rw [List.cons_append, seats, seats, ih fun hm => h (List.mem_cons_of_mem _ hm), hfront]
    split
    · rfl
    · split <;> rfl

theorem seats_joinLf {lines : List (List Char)} (h : ∀ line ∈ lines, '\n' ∉ line) :
    seats .blank (joinLf lines) = lines.flatMap (seats .blank) := by
  by_cases hne : lines = []
  · subst hne
    rfl
  · rw [flatMap_splitLf (f := seats .blank) (fun _ _ => rfl)
      (fun _ rest h => seats_append_lf h .blank rest), splitLf_joinLf hne h]

/-- Behind the first characters of a directive nothing is asked. -/
theorem seats_directive {text : List Char} (h : '\n' ∉ text) :
    seats .directive text = (visible text).map fun c => ⟨c, none, true⟩ := by
  induction text with
  | nil => rfl
  | cons c r ih =>
    have hpush : LineKind.directive.push c = .directive :=
      push_directive fun hc => h (hc ▸ List.mem_cons_self)
    have hrest := ih fun hm => h (List.mem_cons_of_mem _ hm)
    by_cases hc : isBlank c = true
    · rw [seats, if_pos hc, hpush, hrest, visible_cons_of_blank hc]
    · rw [seats, if_neg hc, if_pos hpush, hpush, hrest, visible_cons (by simpa using hc)]
      rfl

/-- Code that nothing follows has its own neighbours. -/
theorem seats_code {text : List Char} (h : '\n' ∉ text) :
    seats .code text = (fronts none text).map fun p => ⟨p.1, p.2, false⟩ := by
  induction text with
  | nil => rfl
  | cons c r ih =>
    have hpush : LineKind.code.push c = .code := push_code fun hc => h (hc ▸ List.mem_cons_self)
    have hrest := ih fun hm => h (List.mem_cons_of_mem _ hm)
    by_cases hc : isBlank c = true
    · rw [seats, if_pos hc, hpush, hrest, fronts, if_pos hc]
    · rw [seats, if_neg hc, hpush, if_neg (by simp), hrest, fronts, if_neg hc, List.map_cons]
      cases r with
      | nil => rfl
      | cons d r => rfl

theorem visible_trimWith {p : Char → Bool} (hp : ∀ c, p c = true → isBlank c = true)
    (s : List Char) : visible (trimWith p s) = visible s := by
  have hfront : visible (s.takeWhile p) = [] :=
    visible_eq_nil.mpr fun c hc => hp c (List.mem_takeWhile_imp hc)
  have hend : visible ((s.dropWhile p).reverse.takeWhile p).reverse = [] :=
    visible_eq_nil.mpr fun c hc => hp c (List.mem_takeWhile_imp (List.mem_reverse.mp hc))
  conv_rhs => rw [← List.takeWhile_append_dropWhile (p := p) (l := s), visible_append, hfront,
    List.nil_append, ← trimEndWith_append p (s.dropWhile p), visible_append, hend, List.append_nil]
  rfl

/-- Settled lines are written with the seats that they have. -/
theorem seats_written {inCode : Bool} {lines : List TidyLine} (h : Settled inCode lines)
    (hcode : inCode = true → ∀ next, lines.head? ≠ some (.code next)) :
    (lines.map TidyLine.written).flatMap (seats .blank) = seatsOf lines := by
  induction lines generalizing inCode with
  | nil => rfl
  | cons line rest ih =>
    rw [List.map_cons, List.flatMap_cons]
    cases line with
    | directive text =>
      obtain ⟨⟨r, hr, hends, -⟩, hrest⟩ := h
      rw [ih hrest (by simp), seatsOf]
      congr 1
      have hvisible : visible text = visible ('#' :: r) := by
        rw [← hr, TidyLine.written, TidyLine.text, visible_trimWith]
        intro c hc
        rw [beq_iff_eq] at hc
        exact hc ▸ isBlank_space
      have hpush : LineKind.blank.push '#' = .directive := rfl
      rw [hr, hvisible, seats, if_neg (by simp), if_pos hpush, hpush, seats_directive hends.1,
        visible_cons isBlank_hash]
      rfl
    | code text =>
      obtain ⟨hne, htext, hhash, halt, hrest⟩ := h
      have hin : inCode = false := by
        cases inCode with
        | false => rfl
        | true => exact absurd rfl (hcode rfl text)
      have hfollows : follows rest = none := by
        cases rest with
        | nil => rfl
        | cons line rest =>
          cases line with
          | directive next => rfl
          | code next => exact absurd rfl (halt next)
      rw [htext.written, ih hrest fun _ => halt, seatsOf, hfollows]
      congr 1
      cases text with
      | nil => exact absurd rfl hne
      | cons c r =>
        have hc : c ≠ '#' := fun hc => hhash hin (by rw [hc]; rfl)
        have hb : isBlank c = false := htext.head c rfl
        have hpush : LineKind.blank.push c = .code :=
          push_blank (ne_of_not_isBlank hb isBlank_lf) (not_isLinearBlank hb) hc
        rw [← seats_code htext.ends.1, seats, seats, hpush, push_code
          (ne_of_not_isBlank hb isBlank_lf)]

/-- **Every visible character has its seat**: what it has right behind it on a line of code is what
it reaches in the stripped text. -/
theorem seated_compress {s : List Char} (h : '\r' ∉ s) :
    List.Forall₂ Seated (reaches s) (seats .blank (compress s)) := by
  have hsettled := settled_tidyLines h
  have htidy : ∀ line ∈ (splitLf s).map TidyLine.ofLine, line.Tidy := by
    intro line hline
    obtain ⟨l, hl, rfl⟩ := List.mem_map.mp hline
    exact tidy_ofLine ⟨lf_notMem_of_mem_splitLf hl, fun hc => h (mem_of_mem_splitLf hl hc)⟩
  rw [compress_eq_joinLf h, seats_joinLf, seats_written hsettled (by simp), tidyLines,
    (seatsOf_joinLines htidy false).1, reaches_eq_reachesLines]
  · exact (seated_settleLines (fun _ => lf_notMem_of_mem_splitLf) false).1
  · intro text htext
    obtain ⟨line, hline, rfl⟩ := List.mem_map.mp htext
    exact (hsettled.written line hline).2.1

theorem map_fst_reaches (s : List Char) : (reaches s).map Prod.fst = visible s := by
  induction s with
  | nil => rfl
  | cons c r ih =>
    by_cases hc : isBlank c = true
    · rw [reaches, if_pos hc, ih, visible_cons_of_blank hc]
    · rw [Bool.not_eq_true] at hc
      rw [reaches_visible hc, List.map_cons, ih, visible_cons hc]

theorem map_char_seats (k : LineKind) (s : List Char) :
    (seats k s).map Seat.char = visible s := by
  induction s generalizing k with
  | nil => rfl
  | cons c r ih =>
    by_cases hc : isBlank c = true
    · rw [seats, if_pos hc, ih, visible_cons_of_blank hc]
    · rw [seats, if_neg hc, visible_cons (by simpa using hc)]
      split <;> rw [List.map_cons, ih]

theorem map_char_of_seated {reached : List (Char × Option Char)} {seated : List Seat}
    (h : List.Forall₂ Seated reached seated) : seated.map Seat.char = reached.map Prod.fst := by
  induction h with
  | nil => rfl
  | cons hseat _ ih => rw [List.map_cons, List.map_cons, hseat.char, ih]

theorem visible_compress {s : List Char} (h : '\r' ∉ s) : visible (compress s) = visible s := by
  rw [← map_char_seats .blank, map_char_of_seated (seated_compress h), map_fst_reaches]

/-! ## Places in a text -/

/-- The kind of the line on which a text ends. -/
def lastLine (s : List Char) : LineKind := s.foldl LineKind.push .blank

theorem getElem?_reaches {c : Char} (hc : isBlank c = false) (before r : List Char) :
    (reaches (before ++ c :: r))[(visible before).length]? = some (c, reach c r) := by
  induction before with
  | nil => rw [List.nil_append, reaches_visible hc]; rfl
  | cons d before ih =>
    by_cases hd : isBlank d = true
    · rw [List.cons_append, reaches, if_pos hd, visible_cons_of_blank hd, ih]
    · rw [Bool.not_eq_true] at hd
      rw [List.cons_append, reaches_visible hd, visible_cons hd, List.length_cons,
        List.getElem?_cons_succ, ih]

theorem exists_of_getElem?_reaches {s : List Char} {n : Nat} {p : Char × Option Char}
    (h : (reaches s)[n]? = some p) :
    ∃ before r, s = before ++ p.1 :: r ∧ (visible before).length = n ∧ reach p.1 r = p.2 := by
  induction s generalizing n with
  | nil => cases h
  | cons c r ih =>
    by_cases hc : isBlank c = true
    · rw [reaches, if_pos hc] at h
      obtain ⟨before, r', rfl, hn, hreach⟩ := ih h
      exact ⟨c :: before, r', rfl, by rw [visible_cons_of_blank hc, hn], hreach⟩
    · rw [Bool.not_eq_true] at hc
      rw [reaches_visible hc] at h
      cases n with
      | zero =>
        cases h
        exact ⟨[], r, rfl, rfl, rfl⟩
      | succ n =>
        obtain ⟨before, r', rfl, hn, hreach⟩ := ih h
        exact ⟨c :: before, r', rfl, by rw [visible_cons hc, List.length_cons, hn], hreach⟩

/-- A character on a line that is no directive sits in front of the visible character behind it. -/
theorem getElem?_seats {c : Char} (hc : isBlank c = false) {before : List Char} {k : LineKind}
    (hk : (before.foldl LineKind.push k).push c ≠ .directive) (r : List Char) :
    (seats k (before ++ c :: r))[(visible before).length]? = some ⟨c, front r, false⟩ := by
  induction before generalizing k with
  | nil =>
    have hpush : k.push c ≠ .directive := hk
    rw [List.nil_append, seats, if_neg (by simp [hc]), if_neg hpush]
    rfl
  | cons d before ih =>
    have hrest := ih hk
    by_cases hd : isBlank d = true
    · rw [List.cons_append, seats, if_pos hd, visible_cons_of_blank hd, hrest]
    · rw [List.cons_append, seats, if_neg hd, visible_cons (by simpa using hd), List.length_cons]
      split <;> rw [List.getElem?_cons_succ, hrest]

/-- A text is parted in one way in front of one of its visible characters. -/
theorem append_inj_of_visible {before before' r r' : List Char} {c c' : Char}
    (hc : isBlank c = false) (hc' : isBlank c' = false)
    (h : before ++ c :: r = before' ++ c' :: r') (hvisible : visible before = visible before') :
    before = before' ∧ c :: r = c' :: r' := by
  rcases List.append_eq_append_iff.mp h with ⟨between, rfl, hr⟩ | ⟨between, rfl, hr⟩
  · cases between with
    | nil => exact ⟨(List.append_nil _).symm, hr⟩
    | cons d between =>
      obtain ⟨rfl, -⟩ := List.cons.inj hr
      rw [visible_append, visible_cons hc] at hvisible
      exact absurd hvisible (by simp)
  · cases between with
    | nil => exact ⟨List.append_nil _, hr.symm⟩
    | cons d between =>
      obtain ⟨rfl, -⟩ := List.cons.inj hr
      rw [visible_append, visible_cons hc'] at hvisible
      exact absurd hvisible (by simp)

theorem takeWhile_isBlank_append {gap : List Char} (hgap : ∀ e ∈ gap, isBlank e = true) {d : Char}
    (hd : isBlank d = false) (after : List Char) : (gap ++ d :: after).takeWhile isBlank = gap := by
  rw [takeWhile_isBlank_of_all hgap, List.takeWhile_cons_of_neg (by simp [hd]), List.append_nil]

/-- What is reached stands behind the character, or behind blanks that vanish. -/
theorem reach_eq_some {c d : Char} {r : List Char} (h : reach c r = some d) :
    ∃ gap after, r = gap ++ d :: after ∧ (∀ e ∈ gap, isBlank e = true) ∧
      (gap = [] ∨ (Vanishes gap ∧ needsSeparator c d = false)) := by
  by_cases hall : ∀ e ∈ r, isBlank e = true
  · rw [reach_of_all hall] at h
    cases h
  obtain ⟨gap, n, after, rfl, hgap, hn⟩ := exists_append_cons hall
  rw [reach, takeWhile_isBlank_append hgap hn, visible_append, visible_eq_nil.mpr hgap,
    List.nil_append, visible_cons hn, List.head?_cons] at h
  split at h
  · rename_i hnil
    subst hnil
    cases h
    exact ⟨[], after, rfl, hgap, .inl rfl⟩
  · split at h
    · rename_i hvanishes
      rw [meet_some] at h
      split at h
      · cases h
      · rename_i hsep
        cases h
        exact ⟨gap, after, rfl, hgap, .inr ⟨hvanishes, by simpa using hsep⟩⟩
    · cases h

theorem reach_append_gap {c d : Char} {gap : List Char} (hgap : ∀ e ∈ gap, isBlank e = true)
    (hvanishes : Vanishes gap) (hd : isBlank d = false) (hsep : needsSeparator c d = false)
    (after : List Char) : reach c (gap ++ d :: after) = some d := by
  have hmeet : meet c (some d) = some d := by rw [meet_some, if_neg (by simp [hsep])]
  rw [reach, takeWhile_isBlank_append hgap hd, if_pos hvanishes, visible_append,
    visible_eq_nil.mpr hgap, List.nil_append, visible_cons hd, List.head?_cons, hmeet]
  split
  · rename_i hnil
    rw [hnil]
    rfl
  · rfl

theorem push_ne_directive {k : LineKind} (hk : k ≠ .directive) {c : Char} (hc : c ≠ '#') :
    k.push c ≠ .directive := by
  cases k with
  | directive => exact absurd rfl hk
  | code => by_cases hlf : c = '\n' <;> simp [LineKind.push, hlf]
  | blank => by_cases hlf : c = '\n' <;> simp [LineKind.push, hlf, hc]; split <;> simp

section Neighbours

variable {s before after : List Char} {a b : Char}

/-- Neighbours on a line of code that is written were neighbours in the stripped text, or were
brought together across blanks that vanish. -/
theorem exists_of_compress_eq (hcr : '\r' ∉ s) (ha : isBlank a = false) (hb : isBlank b = false)
    (hahash : a ≠ '#') (hbhash : b ≠ '#') (hline : lastLine before ≠ .directive)
    (h : compress s = before ++ a :: b :: after) :
    ∃ before' gap after', s = before' ++ a :: (gap ++ b :: after') ∧
      visible before' = visible before ∧ (∀ e ∈ gap, isBlank e = true) ∧
      (gap = [] ∨ (Vanishes gap ∧ needsSeparator a b = false)) := by
  have hseat := getElem?_seats ha (push_ne_directive hline hahash) (b :: after)
  have hfront : front (b :: after) = some b := by rw [front_cons, if_neg (by simp [hb])]
  rw [← h, hfront] at hseat
  obtain ⟨⟨c, next⟩, hreached, hseated⟩ :=
    exists_getElem?_of_forall₂ (seated_compress hcr) hseat
  obtain ⟨before', r, rfl, hlength, hreach⟩ := exists_of_getElem?_reaches hreached
  obtain rfl : a = c := hseated.char
  have hnext : next = some b := (hseated.next rfl b hbhash).mp rfl
  obtain ⟨gap, after', rfl, hgap, hcase⟩ := reach_eq_some (hreach.trans hnext)
  refine ⟨before', gap, after', rfl, ?_, hgap, hcase⟩
  have hvisible := visible_compress hcr
  rw [h, visible_append, visible_append] at hvisible
  exact (List.append_inj_left hvisible hlength.symm).symm

/-- What is reached in the stripped text is a neighbour when it is written on a line of code. -/
theorem front_of_reach (hcr : '\r' ∉ s) (ha : isBlank a = false) (hahash : a ≠ '#')
    (hbhash : b ≠ '#') {before' r : List Char} (hs : s = before' ++ a :: r)
    (hreach : reach a r = some b) (hline : lastLine before ≠ .directive)
    (hvisible : visible before = visible before') (h : compress s = before ++ a :: after) :
    front after = some b := by
  have hseat := getElem?_seats ha (push_ne_directive hline hahash) after
  rw [← h, hvisible] at hseat
  obtain ⟨p, hp, hseated⟩ := exists_getElem?_of_forall₂ (seated_compress hcr) hseat
  rw [hs, getElem?_reaches ha] at hp
  cases hp
  exact (hseated.next rfl b hbhash).mpr hreach

end Neighbours

/-! ## Operators -/

/-- The operators of two characters, and the marks of comments. -/
def operators : List (Char × Char) :=
  [('+', '+'), ('-', '-'), ('<', '<'), ('>', '>'), ('<', '='), ('>', '='), ('=', '='), ('!', '='),
   ('&', '&'), ('|', '|'), ('^', '^'), ('+', '='), ('-', '='), ('*', '='), ('/', '='), ('%', '='),
   ('&', '='), ('|', '='), ('^', '='), ('/', '/'), ('/', '*'), ('*', '/')]

/-- Wherever the release variant of a source has an operator on a line that is no directive, the two
characters are neighbours in the stripped source as well, behind the same visible characters. -/
def FormsNoOperator (source : List Char) : Prop :=
  ∀ before a b after, minify .release source = before ++ a :: b :: after →
    lastLine before ≠ .directive → (a, b) ∈ operators →
    ∃ before' after', stripComments .release (normalizeEnds source) = before' ++ a :: b :: after' ∧
      visible before' = visible before

/-- All operators but one are among the pairs that are kept apart. -/
theorem needsSeparator_of_mem_operators {a b : Char} (h : (a, b) ∈ operators) :
    isBlank a = false ∧ isBlank b = false ∧ a ≠ '#' ∧ b ≠ '#' ∧
      (needsSeparator a b = true ∨ (a = '*' ∧ b = '=')) := by
  have hall : ∀ p ∈ operators, isBlank p.1 = false ∧ isBlank p.2 = false ∧ p.1 ≠ '#' ∧
      p.2 ≠ '#' ∧ (needsSeparator p.1 p.2 = true ∨ (p.1 = '*' ∧ p.2 = '=')) := by decide +kernel
  exact hall (a, b) h

/-- **No operator is formed, except `*=`.** A source keeps its operators apart just when each of its
`*` that is followed by blanks which code loses and then by `=` is written on a directive. -/
theorem formsNoOperator_iff (source : List Char) :
    FormsNoOperator source ↔
      ∀ before gap after,
        stripComments .release (normalizeEnds source) = before ++ '*' :: (gap ++ '=' :: after) →
        gap ≠ [] → (∀ c ∈ gap, isBlank c = true) → Vanishes gap →
        ∀ before' after', minify .release source = before' ++ '*' :: after' →
          visible before' = visible before → lastLine before' = .directive := by
  have hcr := cr_notMem_stripComments .release source
  constructor
  · intro hnone before gap after hs hne hgap hvanishes before' after' hout hvisible
    by_contra hline
    have hreach : reach '*' (gap ++ '=' :: after) = some '=' :=
      reach_append_gap hgap hvanishes (by decide) (by decide) after
    have hfront := front_of_reach hcr isBlank_star (by decide) (by decide) hs hreach hline hvisible
      hout
    obtain ⟨after', rfl⟩ := List.head?_eq_some_iff.mp (front_eq_some hfront)
    obtain ⟨between, rest, hs', hvisible'⟩ :=
      hnone before' '*' '=' after' hout hline (by decide)
    -- The `*` has one place in the stripped text, and there a blank is behind it.
    obtain ⟨-, hsame⟩ := append_inj_of_visible isBlank_star isBlank_star (hs.symm.trans hs')
      (hvisible.symm.trans hvisible'.symm)
    cases gap with
    | nil => exact hne rfl
    | cons d gap =>
      have hd : d = '=' := (List.cons.inj (List.cons.inj hsame).2).1
      have hblank := hgap d List.mem_cons_self
      rw [hd] at hblank
      exact absurd hblank (by decide)
  · intro hstars before a b after hout hline hop
    obtain ⟨ha, hb, hahash, hbhash, hsep⟩ := needsSeparator_of_mem_operators hop
    obtain ⟨before', gap, after', hs, hvisible, hgap, hcase⟩ :=
      exists_of_compress_eq hcr ha hb hahash hbhash hline hout
    by_cases hnil : gap = []
    · subst hnil
      exact ⟨before', after', hs, hvisible⟩
    · obtain ⟨hvanishes, hnot⟩ := hcase.resolve_left hnil
      obtain ⟨rfl, rfl⟩ := hsep.resolve_left (by simp [hnot])
      exact absurd (hstars before' gap after' hs hnil hgap hvanishes before _ hout hvisible.symm)
        hline

/-- A product that is assigned to loses the space in front of its sign. -/
theorem forms_operator_product :
    minify .release "a * = b".toList = "a*=b".toList ∧ ¬ FormsNoOperator "a * = b".toList := by
  have hpieces : pieces .release .blank (normalizeEnds "a * = b".toList) =
      "a * = b".toList.map .kept := by
    have happend := pieces_append .release (s := "a * = b".toList) (by decide) (by decide) .blank []
    rwa [List.append_nil, pieces_nil, List.append_nil] at happend
  have hstrip : stripComments .release (normalizeEnds "a * = b".toList) = "a * = b".toList := by
    rw [stripComments, hpieces]
    rfl
  have hout : minify .release "a * = b".toList = "a*=b".toList := by
    rw [minify, hstrip]
    rfl
  refine ⟨hout, fun hnone => ?_⟩
  have hparts : "a*=b".toList = ['a'] ++ '*' :: '=' :: ['b'] := by decide
  have hsource : "a * = b".toList = ['a', ' '] ++ '*' :: [' ', '=', ' ', 'b'] := by decide
  obtain ⟨before, after, hs, hvisible⟩ :=
    hnone ['a'] '*' '=' ['b'] (hout.trans hparts) (by decide) (by decide)
  rw [hstrip, hsource] at hs
  obtain ⟨-, hrest⟩ := append_inj_of_visible isBlank_star isBlank_star hs hvisible.symm
  exact absurd hrest (by simp)

end AssetPack.Glsl
