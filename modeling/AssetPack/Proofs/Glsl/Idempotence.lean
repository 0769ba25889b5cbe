import AssetPack.Proofs.Glsl.Markers
import AssetPack.Proofs.Glsl.NormalForm
import AssetPack.Proofs.Glsl.Positions

/-!
# Minifying twice is minifying once

A text that is minified is read again as a source: its line ends are made line feeds, its comments
are taken out and its lines are tidied. `minify_minify` says that none of the three finds anything
to do. The last is `compress_compress` for release and the idempotence of trimming for debugging;
what is left is that no comment is found.

After `calm_flatMap_written` and `calm_of_covers` this is a statement about each pass by itself,
that it shows no more of a comment than it was given. Trimming and collapsing change no spot at
all. Three passes are only one-sided: a space is dropped or a line end is, and then the two
neighbours form no marker because `needsSeparator` was asked (`covers_spaced`, `covers_append`);
and code is written where it is read as a directive, whose quotations hide a part of it
(`covers_relabel`).
-/

set_option autoImplicit false

namespace AssetPack.Glsl

open AssetPack.Text

/-! ## Line by line -/

theorem spots_append_lf {line : List Char} (h : '\n' ∉ line) (k : LineKind) (quoted : Bool)
    (rest : List Char) :
    spots k quoted (line ++ '\n' :: rest) = spots k quoted line ++ spots .blank false rest := by
  induction line generalizing k quoted with
  | nil => exact spots_lf k quoted rest
  | cons c line ih =>
    have hline := ih (fun hm => h (List.mem_cons_of_mem _ hm)) (k.push c) (quotedAfter k quoted c)
    by_cases hc : isBlank c = true
    · rw [List.cons_append, spots_blank hc, spots_blank hc, hline]
    · rw [Bool.not_eq_true] at hc
      have hfront : front (line ++ '\n' :: rest) = front line := by
        cases line with
        | nil => rfl
        | cons d line => rfl
      rw [List.cons_append, spots_visible hc, spots_visible hc, hline, hfront, List.cons_append]

theorem spots_eq_flatMap_splitLf (s : List Char) :
    spots .blank false s = (splitLf s).flatMap (spots .blank false) :=
  flatMap_splitLf (fun _ _ => rfl) (fun _ rest h => spots_append_lf h .blank false rest) s

theorem spots_joinLf {lines : List (List Char)} (h : ∀ line ∈ lines, '\n' ∉ line) :
    spots .blank false (joinLf lines) = lines.flatMap (spots .blank false) := by
  by_cases hne : lines = []
  · subst hne
    rfl
  · rw [spots_eq_flatMap_splitLf, splitLf_joinLf hne h]

/-! ## Passes that change no spot -/

theorem front_trimEndWith {p : Char → Bool} (hp : ∀ c, p c = true → isBlank c = true)
    (s : List Char) : front (trimEndWith p s) = front s := by
  cases s with
  | nil => rfl
  | cons c r =>
    rw [trimEndWith_cons]
    split
    · rename_i h
      rw [front_cons, if_pos (hp c h.2)]
      rfl
    · rw [front_cons, front_cons]

theorem spots_trimEndWith {p : Char → Bool} (hp : ∀ c, p c = true → isBlank c = true)
    (k : LineKind) (quoted : Bool) (s : List Char) :
    spots k quoted (trimEndWith p s) = spots k quoted s := by
  induction s generalizing k quoted with
  | nil => rfl
  | cons c r ih =>
    rw [trimEndWith_cons]
    by_cases h : trimEndWith p r = [] ∧ p c = true
    · rw [if_pos h, spots_blank (hp c h.2), ← ih, h.1]
      rfl
    · rw [if_neg h, spots, spots, ih, front_trimEndWith hp]

theorem spots_dropWhile {p : Char → Bool} (hp : ∀ c, p c = true → isLinearBlank c = true)
    (k : LineKind) (quoted : Bool) (s : List Char) :
    spots k quoted (s.dropWhile p) = spots k quoted s := by
  induction s with
  | nil => rfl
  | cons c r ih =>
    by_cases hc : p c = true
    · rw [List.dropWhile_cons_of_pos hc, ih, spots_linear (hp c hc)]
    · rw [List.dropWhile_cons_of_neg hc]

theorem front_collapseBlanks (s : List Char) : front (collapseBlanks false s) = front s := by
  cases s with
  | nil => rfl
  | cons c r =>
    rw [collapseBlanks]
    by_cases hc : isLinearBlank c = true
    · rw [if_pos hc, if_neg (by simp), front_cons, front_cons, if_pos (isBlank_of_isLinearBlank hc)]
      rfl
    · rw [if_neg hc, front_cons, front_cons]

theorem spots_collapseBlanks (inRun : Bool) (k : LineKind) (quoted : Bool) (s : List Char) :
    spots k quoted (collapseBlanks inRun s) = spots k quoted s := by
  induction s generalizing inRun k quoted with
  | nil => rfl
  | cons c r ih =>
    rw [collapseBlanks]
    by_cases hc : isLinearBlank c = true
    · rw [if_pos hc, spots_linear hc]
      cases inRun with
      | true => exact ih true k quoted
      | false =>
        rw [if_neg (by simp), spots_linear isLinearBlank_space]
        exact ih true k quoted
    · rw [if_neg hc, spots, spots, ih, front_collapseBlanks]

/-- In code, other blanks than linear ones can go as well. -/
theorem spots_code_dropWhile {s : List Char} (hlf : '\n' ∉ s) :
    spots .code false (s.dropWhile isBlank) = spots .code false s := by
  induction s with
  | nil => rfl
  | cons c r ih =>
    by_cases hc : isBlank c = true
    · have hne : c ≠ '\n' := fun h => hlf (h ▸ List.mem_cons_self)
      rw [List.dropWhile_cons_of_pos hc, ih fun h => hlf (List.mem_cons_of_mem _ h),
        spots_blank hc, push_code hne, quotedAfter_false fun _ => by simp]
    · rw [List.dropWhile_cons_of_neg hc]

/-- A line that is no directive is code from its first character on. -/
theorem spots_of_not_isDirectiveLine {line : List Char} (hlf : '\n' ∉ line)
    (h : isDirectiveLine line = false) : spots .blank false line = spots .code false line := by
  induction line with
  | nil => rfl
  | cons c r ih =>
    have hne : c ≠ '\n' := fun h => hlf (h ▸ List.mem_cons_self)
    by_cases hc : isLinearBlank c = true
    · rw [isDirectiveLine_cons_linear hc] at h
      rw [spots_linear hc, spots_linear hc, ih (fun h => hlf (List.mem_cons_of_mem _ h)) h]
    · rw [Bool.not_eq_true] at hc
      rw [isDirectiveLine_cons hc] at h
      have hhash : c ≠ '#' := by simpa using h
      rw [spots, spots, push_blank hne hc hhash, push_code hne, quotedAfter_false fun _ => by simp,
        quotedAfter_false fun _ => by simp]

/-! ## Passes that move neighbours -/

/-- Read as code, a text has all its spots exposed. -/
theorem covers_relabel (k : LineKind) (quoted : Bool) (s : List Char) :
    List.Forall₂ Covers (spots .code false s) (spots k quoted s) := by
  induction s generalizing k quoted with
  | nil => exact .nil
  | cons c r ih =>
    by_cases hlf : c = '\n'
    · subst hlf
      rw [spots_lf, spots_lf]
      exact covers_refl _
    · rw [spots, spots, push_code hlf, quotedAfter_false fun _ => by simp]
      by_cases hc : isBlank c = true
      · rw [if_pos hc, if_pos hc]
        exact ih _ _
      · rw [if_neg hc, if_neg hc]
        exact .cons ⟨rfl, fun _ => rfl, fun _ h _ => h⟩ (ih _ _)

/-- Two texts may be put together where their neighbours form no marker. -/
theorem covers_append {s t : List Char}
    (h : ∀ a b, s.getLast? = some a → t.head? = some b → isMarker a b = false) (k : LineKind)
    (quoted : Bool) :
    List.Forall₂ Covers (spots k quoted s ++ spots .code false t) (spots k quoted (s ++ t)) := by
  induction s generalizing k quoted with
  | nil => exact covers_relabel k quoted t
  | cons c r ih =>
    have hr := ih (fun a b ha hb => h a b (by rw [List.getLast?_cons, ha]; rfl) hb)
    by_cases hc : isBlank c = true
    · rw [List.cons_append, spots_blank hc, spots_blank hc]
      exact hr _ _
    · rw [Bool.not_eq_true] at hc
      rw [List.cons_append, spots_visible hc, spots_visible hc, List.cons_append]
      refine .cons ⟨rfl, id, ?_⟩ (hr _ _)
      intro n hn hm
      -- Only the last character of `s` has a new neighbour.
      cases r with
      | cons d r => exact hn
      | nil => exact absurd hm (by simp [h c n rfl (front_eq_some hn)])

/-- Behind a character that needs a separator from it, a character was there before. -/
theorem front_of_front_spaced {l n : Char} {s : List Char}
    (h : front (spaced isLinearBlank needsSeparator (some l) false s) = some n)
    (hsep : needsSeparator l n = true) : front s = some n := by
  cases s with
  | nil => exact absurd h (by simp [spaced, front])
  | cons c r =>
    by_cases hc : isLinearBlank c = true
    · exfalso
      rw [spaced_blank hc, spaced_gap] at h
      cases hs : (spaced isLinearBlank needsSeparator none false r).head? with
      | none =>
        rw [hs] at h
        exact absurd h (by simp [front])
      | some m =>
        rw [hs] at h
        dsimp only at h
        split at h
        · exact absurd h (by simp [front_cons])
        · rename_i hm
          have := front_eq_some h
          rw [hs, Option.some.injEq] at this
          exact hm (this ▸ hsep)
    · rw [Bool.not_eq_true] at hc
      rwa [spaced_visible hc, front_cons, ← front_cons c r] at h

/-- Spacing out drops no space from within a marker. -/
theorem covers_spaced (left : Option Char) (gap : Bool) (k : LineKind) (quoted : Bool)
    (s : List Char) :
    List.Forall₂ Covers (spots k quoted s)
      (spots k quoted (spaced isLinearBlank needsSeparator left gap s)) := by
  induction s generalizing left gap k quoted with
  | nil => exact .nil
  | cons c r ih =>
    by_cases hc : isLinearBlank c = true
    · rw [spaced_blank hc, spots_linear hc]
      exact ih left true k quoted
    · -- The space that may be written in front of `c` leaves no spot.
      have hspots : spots k quoted (spaced isLinearBlank needsSeparator left gap (c :: r)) =
          spots k quoted (c :: spaced isLinearBlank needsSeparator (some c) false r) := by
        rw [spaced, if_neg hc]
        split
        · rw [spots_linear isLinearBlank_space]
        · rfl
      rw [hspots]
      by_cases hb : isBlank c = true
      · rw [spots_blank hb, spots_blank hb]
        exact ih _ _ _ _
      · rw [Bool.not_eq_true] at hb
        rw [spots_visible hb, spots_visible hb]
        refine .cons ⟨rfl, id, ?_⟩ (ih _ _ _ _)
        intro n hn hm
        exact front_of_front_spaced hn (needsSeparator_of_isMarker hm)

/-! ## The release variant, pass by pass -/

/-- The spots of a tidied line: a directive is read as one, code is read as code. -/
def TidyLine.spots : TidyLine → List Spot
  | .directive text => Glsl.spots .blank false text
  | .code text => Glsl.spots .code false text

theorem covers_ofLine {line : List Char} (hlf : '\n' ∉ line) :
    List.Forall₂ Covers (spots .blank false line) (TidyLine.ofLine line).spots := by
  by_cases hd : isDirectiveLine line = true
  · obtain ⟨r, hr, hof⟩ := ofLine_of_isDirectiveLine hd
    rw [hof, TidyLine.spots, ← spots_dropWhile (fun _ h => h), hr, spots_visible (by simp),
      spots_visible (by simp), spots_collapseBlanks, spots_dropWhile fun _ h => h]
    -- The blanks behind `#` are gone, but `#` is in no marker.
    exact .cons ⟨rfl, id, fun _ _ hm => absurd hm (by simp [isMarker])⟩ (covers_refl _)
  · rw [Bool.not_eq_true] at hd
    have htrim : spots .code false (trim line) = spots .blank false line := by
      rw [trim, trimWith, spots_trimEndWith fun _ h => h, spots_code_dropWhile hlf,
        spots_of_not_isDirectiveLine hlf hd]
    rw [ofLine_of_not_isDirectiveLine hd, TidyLine.spots, ← htrim]
    exact covers_spaced none false .code false _

theorem covers_map_ofLine {lines : List (List Char)} (hlf : ∀ line ∈ lines, '\n' ∉ line) :
    List.Forall₂ Covers (lines.flatMap (spots .blank false))
      ((lines.map TidyLine.ofLine).flatMap TidyLine.spots) := by
  induction lines with
  | nil => exact .nil
  | cons line rest ih =>
    rw [List.flatMap_cons, List.map_cons, List.flatMap_cons]
    exact List.rel_append (covers_ofLine (hlf line List.mem_cons_self))
      (ih fun l hl => hlf l (List.mem_cons_of_mem _ hl))

theorem covers_settleLines (inCode : Bool) (lines : List TidyLine) :
    List.Forall₂ Covers (lines.flatMap TidyLine.spots)
      ((settleLines inCode lines).flatMap TidyLine.spots) := by
  induction lines generalizing inCode with
  | nil => exact .nil
  | cons line rest ih =>
    cases line with
    | directive text => exact List.rel_append (covers_refl _) (ih false)
    | code text =>
      cases text with
      | nil => exact ih inCode
      | cons c text =>
        rw [settleLines]
        split
        · exact List.rel_append (covers_relabel .blank false _) (ih false)
        · exact List.rel_append (covers_refl _) (ih true)

/-- Where two lines meet, a space is left between the characters of a marker. -/
theorem covers_joinCode (s t : List Char) :
    List.Forall₂ Covers (spots .code false s ++ spots .code false t)
      (spots .code false (joinCode s t)) := by
  unfold joinCode
  split
  · rename_i a b ha hb
    split
    · rw [← spots_linear (r := t) isLinearBlank_space]
      refine covers_append ?_ .code false
      intro a b _ hb
      obtain rfl := Option.some.inj hb
      simp [isMarker]
    · rename_i hsep
      refine covers_append ?_ .code false
      intro a' b' ha' hb'
      rw [ha, Option.some.injEq] at ha'
      rw [hb, Option.some.injEq] at hb'
      subst ha' hb'
      by_contra hm
      rw [Bool.not_eq_false] at hm
      exact hsep (needsSeparator_of_isMarker hm)
  · rename_i hnone
    exact covers_append (fun a b ha hb => (hnone a b ha hb).elim) .code false

theorem covers_consCode (text : List Char) (lines : List TidyLine) :
    List.Forall₂ Covers (spots .code false text ++ lines.flatMap TidyLine.spots)
      ((consCode text lines).flatMap TidyLine.spots) := by
  cases lines with
  | nil => exact covers_refl _
  | cons line rest =>
    cases line with
    | directive next => exact covers_refl _
    | code next =>
      rw [consCode, List.flatMap_cons, List.flatMap_cons, ← List.append_assoc]
      exact List.rel_append (covers_joinCode text next) (covers_refl _)

theorem covers_joinLines (lines : List TidyLine) :
    List.Forall₂ Covers (lines.flatMap TidyLine.spots)
      ((joinLines lines).flatMap TidyLine.spots) := by
  induction lines with
  | nil => exact .nil
  | cons line rest ih =>
    cases line with
    | directive text => exact List.rel_append (covers_refl _) ih
    | code text =>
      rw [joinLines, List.flatMap_cons]
      exact covers_trans (List.rel_append (covers_refl _) ih) (covers_consCode text _)

/-- Code may be read as a directive once it stands by itself. -/
theorem covers_written (line : TidyLine) :
    List.Forall₂ Covers line.spots (spots .blank false line.written) := by
  have hsp : ∀ c : Char, (c == ' ') = true → isLinearBlank c = true := by
    intro c hc
    rw [beq_iff_eq] at hc
    exact hc ▸ isLinearBlank_space
  rw [TidyLine.written, trimWith,
    spots_trimEndWith fun c hc => isBlank_of_isLinearBlank (hsp c hc), spots_dropWhile hsp]
  cases line with
  | directive text => exact covers_refl _
  | code text => exact covers_relabel .blank false text

theorem covers_compress {s : List Char} (h : '\r' ∉ s) :
    List.Forall₂ Covers (spots .blank false s) (spots .blank false (compress s)) := by
  have hwritten : ∀ lines : List TidyLine, List.Forall₂ Covers (lines.flatMap TidyLine.spots)
      ((lines.map TidyLine.written).flatMap (spots .blank false)) := by
    intro lines
    induction lines with
    | nil => exact .nil
    | cons line rest ih => exact List.rel_append (covers_written line) ih
  rw [compress_eq_joinLf h, spots_joinLf, spots_eq_flatMap_splitLf]
  · exact covers_trans (covers_map_ofLine fun _ => lf_notMem_of_mem_splitLf)
      (covers_trans (covers_settleLines false _) (covers_trans (covers_joinLines _) (hwritten _)))
  · intro text htext
    obtain ⟨line, hline, rfl⟩ := List.mem_map.mp htext
    exact ((settled_tidyLines h).written line hline).2.1

/-! ## The debug variant -/

theorem spots_trimLines (s : List Char) :
    spots .blank false (trimLines s) = spots .blank false s := by
  rw [spots_eq_flatMap_splitLf, splitLf_trimLines, List.flatMap_map, spots_eq_flatMap_splitLf s]
  exact List.flatMap_congr fun line _ => spots_trimEndWith (fun _ h => h) .blank false line

theorem trimLines_trimLines (s : List Char) : trimLines (trimLines s) = trimLines s := by
  have htrim : trimEnd ∘ trimEnd = trimEnd :=
    funext fun line => trimEndWith_trimEndWith isBlank line
  rw [trimLines, splitLf_trimLines, List.map_map, htrim]
  rfl

theorem cr_notMem_trimLines {s : List Char} (h : '\r' ∉ s) : '\r' ∉ trimLines s := by
  intro hc
  rcases mem_joinLf hc with hlf | ⟨l, hl, hc⟩
  · exact absurd hlf (by simp)
  · obtain ⟨line, hline, rfl⟩ := List.mem_map.mp hl
    exact h (mem_of_mem_splitLf hline (mem_of_mem_trimEndWith hc))

/-! ## Both variants -/

theorem stripComments_normalizeEnds_of_calm (v : Variant) {s : List Char} (hcr : '\r' ∉ s)
    (hcalm : Calm (spots .blank false s)) : stripComments v (normalizeEnds s) = s := by
  rw [normalizeEnds_of_notMem hcr, stripComments_of_calm v hcalm]

/-- **Minifying a minified shader again changes nothing**, in either variant. -/
theorem minify_minify (v : Variant) (source : List Char) :
    minify v (minify v source) = minify v source := by
  have hcr := cr_notMem_stripComments v source
  have hcalm : Calm (spots .blank false (stripComments v (normalizeEnds source))) :=
    calm_flatMap_written v .blank _
  generalize hs : stripComments v (normalizeEnds source) = s at hcr hcalm
  cases v with
  | debug =>
    have hstrip := stripComments_normalizeEnds_of_calm .debug (cr_notMem_trimLines hcr)
      (show Calm (spots .blank false (trimLines s)) by rwa [spots_trimLines])
    simp only [minify, hs, hstrip, trimLines_trimLines]
  | release =>
    have hstrip := stripComments_normalizeEnds_of_calm .release (cr_notMem_compress hcr)
      (calm_of_covers (covers_compress hcr) hcalm)
    simp only [minify, hs, hstrip, compress_compress hcr]

end AssetPack.Glsl
