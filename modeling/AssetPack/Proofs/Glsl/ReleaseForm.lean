import Mathlib.Data.List.Chain
import AssetPack.Proofs.Glsl.Idempotence
import AssetPack.Proofs.Glsl.Operators

/-!
# The form of the release variant

What a reader of release text may rely on, whatever the source was: `ReleaseForm`. Most of it is
about single lines (`LineForm`) and about lines that are neighbours (`Parted`), and is read off
`Settled`, which the lines have before they are written. That no comment is left is the one part
that lines do not decide, for a comment may run over many of them; it comes from the markers.
-/

set_option autoImplicit false

namespace AssetPack.Glsl

open AssetPack.Text

/-- Two characters that are not both spaces. -/
def NotBothSpaces (c d : Char) : Prop := ¬ (c = ' ' ∧ d = ' ')

/-- Two lines of which one is a directive. -/
def Parted (line next : List Char) : Prop := line.head? = some '#' ∨ next.head? = some '#'

/-- A line of release text. -/
structure LineForm (line : List Char) : Prop where
  ends : EndFree line
  nonempty : line ≠ []
  blanks : ∀ c ∈ line, isLinearBlank c = true → c = ' '
  single : line.IsChain NotBothSpaces
  head : line.head? ≠ some ' '
  last : line.getLast? ≠ some ' '
  hash : ∀ rest, line = '#' :: rest → rest.head? ≠ some ' '

/-- A release text. The empty one has one line, which is empty. -/
structure ReleaseForm (text : List Char) : Prop where
  plain : ∀ c ∈ ['\r', '\t', '\x0b', '\x0c'], c ∉ text
  single : text.IsChain NotBothSpaces
  nonempty : text ≠ [] → ∀ line ∈ splitLf text, line ≠ []
  trimmed : ∀ line ∈ splitLf text, line.head? ≠ some ' ' ∧ line.getLast? ≠ some ' '
  ends : text.head? ≠ some '\n' ∧ text.getLast? ≠ some '\n'
  parted : (splitLf text).IsChain Parted
  hash : ∀ line ∈ splitLf text, ∀ rest, line = '#' :: rest → rest.head? ≠ some ' '
  stripped : stripComments .release text = text

/-! ## What is spaced out -/

section Spaced

variable {blank : Char → Bool} {keep : Char → Char → Bool}

theorem notBothSpaces_left {c : Char} (hc : c ≠ ' ') (d : Char) : NotBothSpaces c d := by
  intro h
  exact hc h.1

theorem isChain_spaced (hsp : blank ' ' = true) (left : Option Char) (gap : Bool) (s : List Char) :
    (spaced blank keep left gap s).IsChain NotBothSpaces := by
  induction s generalizing left gap with
  | nil => exact List.isChain_nil
  | cons c r ih =>
    by_cases hc : blank c = true
    · rw [spaced_blank hc]
      exact ih left true
    · have hne : c ≠ ' ' := by
        intro h
        exact hc (h ▸ hsp)
      have hcons : (c :: spaced blank keep (some c) false r).IsChain NotBothSpaces :=
        List.isChain_cons.mpr ⟨fun d _ => notBothSpaces_left hne d, ih (some c) false⟩
      rw [spaced, if_neg hc]
      split
      · exact List.isChain_cons_cons.mpr ⟨fun h => hne h.2, hcons⟩
      · exact hcons

theorem eq_space_of_mem_spaced {left : Option Char} {gap : Bool} {s : List Char} {c : Char}
    (h : c ∈ spaced blank keep left gap s) (hc : blank c = true) : c = ' ' := by
  induction s generalizing left gap with
  | nil => exact absurd h List.not_mem_nil
  | cons a r ih =>
    by_cases ha : blank a = true
    · rw [spaced_blank ha] at h
      exact ih h
    · have hne : c ≠ a := by
        intro heq
        exact ha (heq ▸ hc)
      rw [spaced, if_neg ha] at h
      split at h
      · rcases List.mem_cons.mp h with heq | h
        · exact heq
        · exact ih ((List.mem_cons.mp h).resolve_left hne)
      · exact ih ((List.mem_cons.mp h).resolve_left hne)

end Spaced

/-! ## One line -/

theorem IsCodeText.lineForm {text : List Char} (h : IsCodeText text) (hne : text ≠ [])
    (hhash : text.head? ≠ some '#') : LineForm text := by
  have hspace : ∀ c, isBlank c = false → c ≠ ' ' := by
    intro c hc
    exact ne_of_not_isBlank hc isBlank_space
  refine ⟨h.ends, hne, ?_, ?_, ?_, ?_, ?_⟩
  · intro c hc hblank
    rw [← h.fixed] at hc
    exact eq_space_of_mem_spaced hc hblank
  · rw [← h.fixed]
    exact isChain_spaced isLinearBlank_space none false text
  · intro hsp
    exact hspace ' ' (h.head ' ' hsp) rfl
  · intro hsp
    exact hspace ' ' (h.last ' ' hsp) rfl
  · intro rest heq
    rw [heq] at hhash
    exact absurd rfl hhash

theorem IsDirectiveText.lineForm {text : List Char} (h : IsDirectiveText text) : LineForm text := by
  obtain ⟨rest, rfl, hends, hfixed⟩ := h
  have hfirst : rest.head? ≠ some ' ' := by
    intro hsp
    rw [← hfixed] at hsp
    exact absurd (head?_spaced_visible hsp) (by simp [isLinearBlank_space])
  refine ⟨?_, List.cons_ne_nil _ _, ?_, ?_, by simp, ?_, ?_⟩
  · exact ⟨by simp [hends.1], by simp [hends.2]⟩
  · intro c hc hblank
    rcases List.mem_cons.mp hc with rfl | hc
    · exact absurd hblank (by simp [not_isLinearBlank isBlank_hash])
    · rw [← hfixed] at hc
      exact eq_space_of_mem_spaced hc hblank
  · have hchain := @isChain_spaced isLinearBlank (fun _ _ => true) isLinearBlank_space none false
      rest
    rw [hfixed] at hchain
    exact List.isChain_cons.mpr ⟨fun d _ => notBothSpaces_left (by simp) d, hchain⟩
  · intro hsp
    rw [List.getLast?_cons] at hsp
    rw [← hfixed, getLast?_spaced] at hsp
    cases hl : (rest.filter fun c => !isLinearBlank c).getLast? with
    | none =>
      rw [hl] at hsp
      exact absurd hsp (by simp)
    | some c =>
      have hc := (List.mem_filter.mp (List.mem_of_getLast? hl)).2
      rw [hl] at hsp
      simp only [Option.getD_some, Option.some.injEq] at hsp
      rw [hsp, isLinearBlank_space] at hc
      exact absurd hc (by simp)
  · intro rest' heq
    rw [← (List.cons.inj heq).2]
    exact hfirst

/-! ## All lines -/

/-- Settled lines are written in form, and none that is code behind another. -/
theorem Settled.form {inCode : Bool} {lines : List TidyLine} (h : Settled inCode lines)
    (hcode : inCode = true → ∀ next, lines.head? ≠ some (.code next)) :
    (∀ line ∈ lines, LineForm line.written) ∧ (lines.map TidyLine.written).IsChain Parted := by
  induction lines generalizing inCode with
  | nil => exact ⟨by simp, List.isChain_nil⟩
  | cons line rest ih =>
    rw [List.forall_mem_cons, List.map_cons, List.isChain_cons]
    cases line with
    | directive text =>
      obtain ⟨hdir, hrest⟩ := h
      obtain ⟨hforms, hparted⟩ := ih hrest (by simp)
      refine ⟨⟨hdir.lineForm, hforms⟩, ?_, hparted⟩
      intro next _
      obtain ⟨text', htext, -⟩ := hdir
      exact .inl (by rw [htext]; rfl)
    | code text =>
      obtain ⟨hne, htext, hhash, halt, hrest⟩ := h
      obtain ⟨hforms, hparted⟩ := ih hrest fun _ => halt
      have hin : inCode = false := by
        cases inCode with
        | false => rfl
        | true => exact absurd rfl (hcode rfl text)
      refine ⟨⟨?_, hforms⟩, ?_, hparted⟩
      · rw [htext.written]
        exact htext.lineForm hne (hhash hin)
      · intro next hnext
        cases rest with
        | nil => exact absurd hnext (by simp)
        | cons line rest =>
          cases line with
          | code next => exact absurd rfl (halt next)
          | directive text' =>
            obtain ⟨⟨text'', htext'', -⟩, -⟩ := hrest
            obtain rfl := Option.some.inj hnext
            exact .inr (by rw [htext'']; rfl)

/-- Lines in form, put together, have no two spaces side by side, nor a line feed at an end. -/
theorem isChain_of_lines {text : List Char} (h : ∀ line ∈ splitLf text, line.IsChain NotBothSpaces) :
    text.IsChain NotBothSpaces := by
  refine splitLf_induction
    (P := fun text lines => (∀ line ∈ lines, line.IsChain NotBothSpaces) →
      text.IsChain NotBothSpaces) ?_ ?_ text h
  · intro line _ hline
    exact hline line List.mem_cons_self
  · intro line rest _ ih hlines
    rw [List.forall_mem_cons] at hlines
    refine List.isChain_append.mpr ⟨hlines.1, ?_, ?_⟩
    · exact List.isChain_cons.mpr ⟨fun d _ => notBothSpaces_left (by simp) d, ih hlines.2⟩
    · intro c _ d hd hboth
      obtain rfl := Option.some.inj hd
      exact absurd hboth.2 (by simp)

theorem ends_of_lines {text : List Char} (h : ∀ line ∈ splitLf text, line ≠ []) :
    ∃ c d, text.head? = some c ∧ c ≠ '\n' ∧ text.getLast? = some d ∧ d ≠ '\n' := by
  refine splitLf_induction
    (P := fun text lines => (∀ line ∈ lines, line ≠ []) →
      ∃ c d, text.head? = some c ∧ c ≠ '\n' ∧ text.getLast? = some d ∧ d ≠ '\n') ?_ ?_ text h
  · intro line hlf hlines
    have hne := hlines line List.mem_cons_self
    refine ⟨line.head hne, line.getLast hne, List.head?_eq_some_head hne, ?_,
      List.getLast?_eq_some_getLast hne, ?_⟩
    · intro hc
      exact hlf (hc ▸ List.head_mem hne)
    · intro hd
      exact hlf (hd ▸ List.getLast_mem hne)
  · intro line rest hlf ih hlines
    rw [List.forall_mem_cons] at hlines
    obtain ⟨_, d, -, -, hd, hdlf⟩ := ih hlines.2
    refine ⟨line.head hlines.1, d, ?_, ?_, ?_, hdlf⟩
    · rw [List.head?_append_of_ne_nil _ hlines.1]
      exact List.head?_eq_some_head hlines.1
    · intro hc
      exact hlf (hc ▸ List.head_mem hlines.1)
    · rw [List.getLast?_append_of_ne_nil _ (List.cons_ne_nil _ _), List.getLast?_cons, hd]
      rfl

/-! ## The whole text -/

/-- The form of a text, from its lines. -/
theorem releaseForm_of_lines {text : List Char} (hlines : ∀ line ∈ splitLf text, LineForm line)
    (hparted : (splitLf text).IsChain Parted) (hcalm : Calm (spots .blank false text)) :
    ReleaseForm text := by
  obtain ⟨c, d, hc, hclf, hd, hdlf⟩ := ends_of_lines fun line hline => (hlines line hline).nonempty
  refine ⟨?_, isChain_of_lines fun line hline => (hlines line hline).single,
    fun _ line hline => (hlines line hline).nonempty,
    fun line hline => ⟨(hlines line hline).head, (hlines line hline).last⟩, ?_, hparted,
    fun line hline => (hlines line hline).hash, stripComments_of_calm .release hcalm⟩
  · intro c hc hmem
    rw [← joinLf_splitLf text] at hmem
    rcases mem_joinLf hmem with rfl | ⟨line, hline, hmem⟩
    · exact absurd hc (by decide)
    · have hform := hlines line hline
      simp only [List.mem_cons, List.not_mem_nil, or_false] at hc
      rcases hc with rfl | rfl | rfl | rfl
      · exact hform.ends.2 hmem
      · exact absurd (hform.blanks _ hmem (by decide)) (by decide)
      · exact absurd (hform.blanks _ hmem (by decide)) (by decide)
      · exact absurd (hform.blanks _ hmem (by decide)) (by decide)
  · rw [hc, hd]
    exact ⟨fun h => hclf (Option.some.inj h), fun h => hdlf (Option.some.inj h)⟩

theorem releaseForm_nil : ReleaseForm [] where
  plain := by simp
  single := List.isChain_nil
  nonempty h := absurd rfl h
  trimmed := by simp [splitLf, split]
  ends := by simp
  parted := List.isChain_singleton _
  hash := by simp [splitLf, split]
  stripped := stripComments_of_calm .release trivial

/-- **Release text is in release form**, and has every visible character of the source that is in no
comment. -/
theorem releaseForm_minify (source : List Char) :
    ReleaseForm (minify .release source) ∧
      visible (minify .release source) = visible (stripComments .release (normalizeEnds source)) := by
  have hcr := cr_notMem_stripComments .release source
  have hcalm : Calm (spots .blank false (stripComments .release (normalizeEnds source))) :=
    calm_flatMap_written .release .blank _
  show ReleaseForm (compress (stripComments .release (normalizeEnds source))) ∧
    visible (compress (stripComments .release (normalizeEnds source))) = _
  generalize stripComments .release (normalizeEnds source) = s at hcr hcalm ⊢
  refine ⟨?_, visible_compress hcr⟩
  have hsettled := settled_tidyLines hcr
  by_cases hnil : tidyLines s = []
  · rw [compress_eq_joinLf hcr, hnil]
    exact releaseForm_nil
  · obtain ⟨hforms, hparted⟩ := hsettled.form (by simp)
    have hlines : splitLf (compress s) = (tidyLines s).map TidyLine.written := by
      rw [compress_eq_joinLf hcr]
      refine splitLf_joinLf (by simpa using hnil) ?_
      intro text htext
      obtain ⟨line, hline, rfl⟩ := List.mem_map.mp htext
      exact (hforms line hline).ends.1
    refine releaseForm_of_lines ?_ ?_ (calm_of_covers (covers_compress hcr) hcalm)
    · rw [hlines]
      intro text htext
      obtain ⟨line, hline, rfl⟩ := List.mem_map.mp htext
      exact hforms line hline
    · rw [hlines]
      exact hparted

end AssetPack.Glsl
