import AssetPack.Glsl.Minify
import AssetPack.Proofs.Glsl.Pieces

/-!
# The debug variant keeps every line and column

A compiler that reads the debug variant reports lines and columns of it, and they are looked up
in the source. `debug_keeps_positions` is what makes that right: blanking out comments changes no
character's index and no line feed, and trimming only shortens lines at their end.

The relation behind it is `Blanked`, one character at a time: kept, or turned into a space and
then not a line feed. Equal length, equal line feeds and equal line lengths are all read off it.
`InComment` names the positions that are blanked, by the pieces that the scanner cuts.
-/

set_option autoImplicit false

namespace AssetPack.Glsl

open AssetPack.Text

/-- The character at a line and a column, both counted from zero. -/
def charAt (s : List Char) (line column : Nat) : Option Char :=
  (splitLf s)[line]? >>= fun l => l[column]?

/-- Position `i` of the text lies in a comment that the scanner cuts, delimiters included. -/
def InComment (v : Variant) (s : List Char) (i : Nat) : Prop :=
  ∃ before text after j, pieces v .blank s = before ++ .comment text :: after ∧
    j < text.length ∧ i = (before.flatMap Piece.source).length + j

/-- `out` is `line` without the blanks at its end. -/
def IsTrimmed (line out : List Char) : Prop :=
  ∃ blanks, line = out ++ blanks ∧ (∀ c ∈ blanks, isBlank c = true) ∧
    ∀ c, out.getLast? = some c → isBlank c = false

/-! ## One character at a time -/

/-- What a character may become where comments are blanked out. -/
def Blanked (a b : Char) : Prop := b = a ∨ (a ≠ '\n' ∧ b = ' ')

theorem Blanked.lf_iff {a b : Char} (h : Blanked a b) : a = '\n' ↔ b = '\n' := by
  rcases h with rfl | ⟨ha, rfl⟩
  · rfl
  · exact ⟨fun h => absurd h ha, fun h => absurd h (by simp)⟩

theorem Blanked.eq_of_ne_space {a b : Char} (h : Blanked a b) (hb : b ≠ ' ') : a = b := by
  rcases h with rfl | ⟨-, rfl⟩
  · rfl
  · exact absurd rfl hb

theorem blanked_written (p : Piece) : List.Forall₂ Blanked p.source (p.written .debug) := by
  cases p with
  | kept c => exact .cons (Or.inl rfl) .nil
  | comment text =>
    rw [Piece.source, Piece.written, List.forall₂_map_right_iff, List.forall₂_same]
    intro c _
    by_cases hc : c = '\n'
    · exact Or.inl (by simp [hc])
    · exact Or.inr ⟨hc, by simp [hc]⟩

theorem blanked_flatMap_written (ps : List Piece) :
    List.Forall₂ Blanked (ps.flatMap Piece.source) (ps.flatMap (Piece.written .debug)) := by
  induction ps with
  | nil => exact .nil
  | cons p ps ih =>
    rw [List.flatMap_cons, List.flatMap_cons]
    exact List.rel_append (blanked_written p) ih

theorem blanked_stripComments (s : List Char) :
    List.Forall₂ Blanked s (stripComments .debug s) := by
  have := blanked_flatMap_written (pieces .debug .blank s)
  rwa [flatMap_source_pieces] at this

theorem length_flatMap_written_debug (ps : List Piece) :
    (ps.flatMap (Piece.written .debug)).length = (ps.flatMap Piece.source).length :=
  (blanked_flatMap_written ps).length_eq.symm

/-! ## One piece at a time -/

/-- Every position of a text lies in one of its pieces. -/
theorem exists_piece_at {ps : List Piece} {i : Nat} (h : i < (ps.flatMap Piece.source).length) :
    ∃ before p after j, ps = before ++ p :: after ∧ j < p.source.length ∧
      i = (before.flatMap Piece.source).length + j := by
  induction ps generalizing i with
  | nil => simp at h
  | cons p ps ih =>
    by_cases hi : i < p.source.length
    · exact ⟨[], p, ps, i, rfl, hi, by simp⟩
    · rw [List.flatMap_cons, List.length_append] at h
      obtain ⟨before, q, after, j, hps, hj, heq⟩ := ih (i := i - p.source.length) (by omega)
      refine ⟨p :: before, q, after, j, by rw [hps]; rfl, hj, ?_⟩
      rw [List.flatMap_cons, List.length_append]
      omega

/-- The characters of one piece, found in the whole text by its length before the piece. -/
theorem getElem?_flatMap_append (before after : List Piece) {f : Piece → List Char} {p : Piece}
    {j : Nat} (hj : j < (f p).length) :
    ((before ++ p :: after).flatMap f)[(before.flatMap f).length + j]? = (f p)[j]? := by
  rw [List.flatMap_append, List.flatMap_cons, List.getElem?_append_right (by omega),
    Nat.add_sub_cancel_left, List.getElem?_append_left hj]

theorem getElem?_stripComments {s : List Char} {before after : List Piece} {p : Piece} {j : Nat}
    (hps : pieces .debug .blank s = before ++ p :: after) (hj : j < p.source.length) :
    s[(before.flatMap Piece.source).length + j]? = p.source[j]? ∧
      (stripComments .debug s)[(before.flatMap Piece.source).length + j]? =
        (p.written .debug)[j]? := by
  constructor
  · have := getElem?_flatMap_append before after hj
    rwa [← hps, flatMap_source_pieces] at this
  · have hw : j < (p.written .debug).length := by
      rwa [← (blanked_written p).length_eq]
    have := getElem?_flatMap_append before after hw
    rwa [← hps, length_flatMap_written_debug] at this

/-- A position in a comment holds a space. -/
theorem getElem?_of_inComment {s : List Char} {i : Nat} {c : Char} (h : InComment .debug s i)
    (hi : s[i]? = some c) (hc : c ≠ '\n') : (stripComments .debug s)[i]? = some ' ' := by
  obtain ⟨before, text, after, j, hps, hj, rfl⟩ := h
  have hj' : j < (Piece.comment text).source.length := hj
  obtain ⟨hs, ht⟩ := getElem?_stripComments hps hj'
  rw [hs] at hi
  rw [ht, Piece.written, List.getElem?_map, show text[j]? = some c from hi]
  simp [hc]

/-- A position in no comment holds what it held. -/
theorem getElem?_of_not_inComment {s : List Char} {i : Nat} {c : Char}
    (h : ¬ InComment .debug s i) (hi : s[i]? = some c) :
    (stripComments .debug s)[i]? = some c := by
  have hlen : i < ((pieces .debug .blank s).flatMap Piece.source).length := by
    rw [flatMap_source_pieces]
    exact (List.getElem?_eq_some_iff.mp hi).1
  obtain ⟨before, p, after, j, hps, hj, rfl⟩ := exists_piece_at hlen
  obtain ⟨hs, ht⟩ := getElem?_stripComments hps hj
  rw [hs] at hi
  cases p with
  | kept d => rw [ht, ← hi]; rfl
  | comment text => exact absurd ⟨before, text, after, j, hps, hj, rfl⟩ h

/-- A comment that is cut is a comment of the text, where the pieces before it end. -/
theorem isComment_of_mem_pieces {v : Variant} {k : LineKind} {s text : List Char}
    {before after : List Piece} (h : pieces v k s = before ++ .comment text :: after) :
    IsComment text (after.flatMap Piece.source) := by
  refine pieces_induction v (P := fun _ _ ps => ∀ before after,
    ps = before ++ Piece.comment text :: after → IsComment text (after.flatMap Piece.source))
    ?_ ?_ ?_ ?_ k s before after h
  · intro _ before after h
    exact absurd h (by simp)
  · intro k t rest ht ih before after h
    cases before with
    | nil =>
      simp only [List.nil_append, List.cons.injEq, Piece.comment.injEq] at h
      obtain ⟨rfl, rfl⟩ := h
      rwa [flatMap_source_pieces]
    | cons p before =>
      simp only [List.cons_append, List.cons.injEq] at h
      exact ih before after h.2
  · intro r ih before after h
    -- No comment is among the copied characters, so `before` holds all of them.
    rw [← List.cons_append, List.append_eq_append_iff] at h
    have hkept : ∀ q ∈ Piece.kept '"' :: (cutQuoted r).1.map Piece.kept, ∃ c, q = .kept c := by
      intro q hq
      rcases List.mem_cons.mp hq with rfl | hq
      · exact ⟨_, rfl⟩
      · obtain ⟨c, -, rfl⟩ := List.mem_map.mp hq
        exact ⟨c, rfl⟩
    rcases h with ⟨mid, -, hmid⟩ | ⟨mid, hmid, hrest⟩
    · exact ih mid after hmid
    · cases mid with
      | nil => exact ih [] after hrest.symm
      | cons q mid =>
        simp only [List.cons_append, List.cons.injEq] at hrest
        obtain ⟨c, hc⟩ := hkept q (by rw [hmid]; simp)
        exact absurd (hrest.1.trans hc) (by simp)
  · intro k c r _ _ ih before after h
    cases before with
    | nil => exact absurd h (by simp)
    | cons p before =>
      simp only [List.cons_append, List.cons.injEq] at h
      exact ih before after h.2

/-! ## One line at a time -/

theorem isTrimmed_trimEnd (line : List Char) : IsTrimmed line (trimEnd line) := by
  refine ⟨(line.reverse.takeWhile isBlank).reverse, (trimEndWith_append isBlank line).symm, ?_, ?_⟩
  · intro c hc
    exact List.mem_takeWhile_imp (List.mem_reverse.mp hc)
  · exact trimEndWith_eq_self_iff.mp (trimEndWith_trimEndWith isBlank line)

theorem splitLf_trimLines (s : List Char) : splitLf (trimLines s) = (splitLf s).map trimEnd := by
  refine splitLf_joinLf (by simpa using splitLf_ne_nil s) ?_
  intro line hline
  obtain ⟨l, hl, rfl⟩ := List.mem_map.mp hline
  exact fun hm => lf_notMem_of_mem_splitLf hl (mem_of_mem_trimEndWith hm)

/-- Where no blank is concerned, a trimmed line reads as the line does. -/
theorem IsTrimmed.getElem?_iff {l out : List Char} (h : IsTrimmed l out) {m : Nat} {c : Char}
    (hc : isBlank c = false) : out[m]? = some c ↔ l[m]? = some c := by
  obtain ⟨blanks, rfl, hblank, -⟩ := h
  by_cases hm : m < out.length
  · rw [List.getElem?_append_left hm]
  · have hle : out.length ≤ m := by omega
    rw [List.getElem?_eq_none hle, List.getElem?_append_right hle]
    refine ⟨fun h => absurd h (by simp), fun h => ?_⟩
    exact absurd (hblank c (List.mem_of_getElem? h)) (by simp [hc])

theorem exists_getElem?_of_forall₂ {α β : Type} {R : α → β → Prop} {l₁ : List α} {l₂ : List β}
    (h : List.Forall₂ R l₁ l₂) {i : Nat} {b : β} (hb : l₂[i]? = some b) :
    ∃ a, l₁[i]? = some a ∧ R a b := by
  induction h generalizing i with
  | nil => exact absurd hb (by simp)
  | @cons a b' l₁ l₂ hab _ ih =>
    cases i with
    | zero =>
      rw [List.getElem?_cons_zero, Option.some.injEq] at hb
      exact ⟨a, rfl, hb ▸ hab⟩
    | succ i => exact ih (by simpa using hb)

theorem charAt_trimLines {s : List Char} {line column : Nat} {c : Char} (hc : isBlank c = false) :
    charAt (trimLines s) line column = some c ↔ charAt s line column = some c := by
  unfold charAt
  rw [splitLf_trimLines, List.getElem?_map]
  cases (splitLf s)[line]? with
  | none => simp
  | some l => exact (isTrimmed_trimEnd l).getElem?_iff hc

theorem charAt_of_blanked {s t : List Char} (h : List.Forall₂ Blanked s t) {line column : Nat}
    {c : Char} (ht : charAt t line column = some c) (hc : c ≠ ' ') :
    charAt s line column = some c := by
  obtain ⟨l', hl', hcol⟩ := Option.bind_eq_some_iff.mp ht
  obtain ⟨l, hl, hlines⟩ :=
    exists_getElem?_of_forall₂ (forall₂_splitLf (fun _ _ => Blanked.lf_iff) h) hl'
  obtain ⟨a, ha, hac⟩ := exists_getElem?_of_forall₂ hlines hcol
  rw [hac.eq_of_ne_space hc] at ha
  exact Option.bind_eq_some_iff.mpr ⟨l, hl, ha⟩

theorem getElem?_lf_iff_of_blanked {s t : List Char} (h : List.Forall₂ Blanked s t) (i : Nat) :
    t[i]? = some '\n' ↔ s[i]? = some '\n' := by
  constructor
  · intro ht
    obtain ⟨a, ha, hab⟩ := exists_getElem?_of_forall₂ h ht
    rwa [hab.lf_iff.mpr rfl] at ha
  · intro hs
    have hi : i < t.length := by
      rw [← h.length_eq]
      exact (List.getElem?_eq_some_iff.mp hs).1
    obtain ⟨a, ha, hab⟩ := exists_getElem?_of_forall₂ h (List.getElem?_eq_getElem hi)
    rw [hs, Option.some.injEq] at ha
    rw [List.getElem?_eq_getElem hi, hab.lf_iff.mp ha.symm]

/-- **Minifying for debugging moves nothing.** With `s` the source with its line ends made line
feeds and `t` the same text without comments: `t` is `s` position by position, but for a space at
each position of a comment that is no line feed; the comments are whole comments of `s`; and the
embedded text has the lines of `t`, each cut at its end, so that what is left of `s` has kept its
line and its column. -/
theorem debug_keeps_positions (source : List Char) :
    let s := normalizeEnds source
    let t := stripComments .debug s
    t.length = s.length ∧
    (∀ i : Nat, t[i]? = some '\n' ↔ s[i]? = some '\n') ∧
    (∀ (i : Nat) c, s[i]? = some c → c ≠ '\n' →
      (InComment .debug s i → t[i]? = some ' ') ∧ (¬ InComment .debug s i → t[i]? = some c)) ∧
    (∀ before text after, pieces .debug .blank s = before ++ .comment text :: after →
      s = before.flatMap Piece.source ++ text ++ after.flatMap Piece.source ∧
      IsComment text (after.flatMap Piece.source)) ∧
    (splitLf (minify .debug source)).length = (splitLf s).length ∧
    List.Forall₂ IsTrimmed (splitLf t) (splitLf (minify .debug source)) ∧
    (∀ line column c, isBlank c = false →
      (charAt (minify .debug source) line column = some c ↔ charAt t line column = some c)) ∧
    ∀ line column c, charAt t line column = some c → c ≠ ' ' → charAt s line column = some c := by
  intro s t
  have hst : List.Forall₂ Blanked s t := blanked_stripComments s
  have hmin : splitLf (minify .debug source) = (splitLf t).map trimEnd := splitLf_trimLines t
  refine ⟨hst.length_eq.symm, getElem?_lf_iff_of_blanked hst, ?_, ?_, ?_, ?_, ?_, ?_⟩
  · intro i c hi hc
    exact ⟨fun h => getElem?_of_inComment h hi hc, fun h => getElem?_of_not_inComment h hi⟩
  · intro before text after hps
    refine ⟨?_, isComment_of_mem_pieces hps⟩
    have := flatMap_source_pieces .debug .blank s
    rw [hps] at this
    rw [← this]
    simp [Piece.source]
  · rw [hmin, List.length_map]
    exact (forall₂_splitLf (fun _ _ => Blanked.lf_iff) hst).length_eq.symm
  · rw [hmin, List.forall₂_map_right_iff, List.forall₂_same]
    exact fun line _ => isTrimmed_trimEnd line
  · exact fun line column c hc => charAt_trimLines hc
  · exact fun line column c ht hc => charAt_of_blanked hst ht hc

end AssetPack.Glsl
