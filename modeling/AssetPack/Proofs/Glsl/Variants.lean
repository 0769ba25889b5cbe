import AssetPack.Proofs.Glsl.Markers
import AssetPack.Proofs.Glsl.NormalForm
import AssetPack.Proofs.Glsl.Positions

/-!
# When the two variants are one program

Both variants of a shader are embedded when the build mode is open, and the running program picks
one. They should differ in blanks only. `outline` is what they should share: the visible
characters in order, and of each the directive line it lies on.

They do not share it always. A block comment with a line feed in it ends its line in the debug
variant, which keeps the line feed, and does not in the release variant, which writes a space.
`seamless` says of a source that this makes no difference, comment by comment, and
`outline_minify_iff` that it is the exact condition. Where it holds the scanner also cuts both
variants the same way: whether a quote protects a comment marker depends on the line written so
far, and these lines then differ only where no quote is looked at.

The proof runs the two scanners side by side. Their lines are of one kind, or the debug line has
just been broken and is blank (`Lags`). `agrees` says when the two runs go on alike from there.
-/

set_option autoImplicit false

namespace AssetPack.Glsl

open AssetPack.Text

/-! ## What the variants should share -/

/-- The visible characters of the lines, each with the number of its line among the directives,
or none if its line is no directive. `n` directives came before. -/
def outlineFrom (n : Nat) : List (List Char) → List (Char × Option Nat)
  | [] => []
  | line :: rest =>
    if isDirectiveLine line then
      (visible line).map (fun c => (c, some (n + 1))) ++ outlineFrom (n + 1) rest
    else (visible line).map (fun c => (c, none)) ++ outlineFrom n rest

/-- The visible characters of a text in order, each with the directive line it lies on. -/
def outline (s : List Char) : List (Char × Option Nat) := outlineFrom 0 (splitLf s)

/-- The visible character that follows on the line once the comments are taken out, however many
lines these take. -/
def nextVisible : List Piece → Option Char
  | [] => none
  | .comment _ :: ps => nextVisible ps
  | .kept c :: ps => if c = '\n' then none else if isBlank c then nextVisible ps else some c

/-- Whether a line of kind `k` may end here and go on as a new line: it has been blank so far, or
it is a directive and nothing follows, or it is code and what follows is no directive. -/
def mayBreak (k : LineKind) (ps : List Piece) : Bool :=
  match k with
  | .blank => true
  | .directive => nextVisible ps == none
  | .code => nextVisible ps != some '#'

/-- Each comment with a line feed in it stands where its line may end. `k` is the kind of the line
so far. -/
def seamless (k : LineKind) : List Piece → Bool
  | [] => true
  | .kept c :: ps => seamless (k.push c) ps
  | .comment text :: ps => (!text.contains '\n' || mayBreak k ps) && seamless k ps

/-! ## The last pass keeps the outline -/

theorem outlineFrom_append_code {lines : List (List Char)}
    (h : ∀ line ∈ lines, isDirectiveLine line = false) (n : Nat) (rest : List (List Char)) :
    outlineFrom n (lines ++ rest) =
      (lines.flatMap visible).map (fun c => (c, none)) ++ outlineFrom n rest := by
  induction lines with
  | nil => rfl
  | cons line lines ih =>
    rw [List.cons_append, outlineFrom, if_neg (by simp [h line List.mem_cons_self]),
      ih fun l hl => h l (List.mem_cons_of_mem _ hl), List.flatMap_cons, List.map_append,
      List.append_assoc]

theorem visible_trimEnd (line : List Char) : visible (trimEnd line) = visible line := by
  obtain ⟨blanks, hline, hblank, -⟩ := isTrimmed_trimEnd line
  have hnil : visible blanks = [] :=
    List.filter_eq_nil_iff.mpr fun c hc => by simp [hblank c hc]
  conv_rhs => rw [hline, visible_append, hnil, List.append_nil]

theorem isDirectiveLine_trimEnd (line : List Char) :
    isDirectiveLine (trimEnd line) = isDirectiveLine line := by
  unfold trimEnd
  induction line with
  | nil => rfl
  | cons c line ih =>
    rw [trimEndWith_cons]
    by_cases hc : isLinearBlank c = true
    · rw [isDirectiveLine_cons_linear hc, ← ih]
      split
      · rename_i h
        rw [h.1]
      · rw [isDirectiveLine_cons_linear hc]
    · rw [Bool.not_eq_true] at hc
      rw [isDirectiveLine_cons hc]
      split
      · rename_i h
        have hhash : c ≠ '#' := Ne.symm (ne_of_not_isBlank isBlank_hash h.2)
        simp [isDirectiveLine, hhash]
      · rw [isDirectiveLine_cons hc]

theorem outline_trimLines (s : List Char) : outline (trimLines s) = outline s := by
  have hlines : ∀ (n : Nat) (lines : List (List Char)),
      outlineFrom n (lines.map trimEnd) = outlineFrom n lines := by
    intro n lines
    induction lines generalizing n with
    | nil => rfl
    | cons line rest ih =>
      rw [List.map_cons, outlineFrom, outlineFrom, isDirectiveLine_trimEnd, visible_trimEnd, ih, ih]
  rw [outline, splitLf_trimLines, hlines]
  rfl

/-- No line of code begins with `#` when it is written. -/
theorem isDirectiveLine_spaced {lines : List (List Char)}
    (h : ∀ line ∈ lines, isDirectiveLine line = false) (hp : ∀ line ∈ lines, PlainLine line) :
    isDirectiveLine (spaced isBlank needsSeparator none false (joinLf lines)) = false := by
  have hhead : (visible (joinLf lines)).head? ≠ some '#' := by
    rw [visible_joinLf]
    induction lines with
    | nil => simp
    | cons line rest ih =>
      rw [List.flatMap_cons, List.head?_append]
      have hline := (hp line List.mem_cons_self).head?_visible (h line List.mem_cons_self)
      have hrest := ih (fun l hl => h l (List.mem_cons_of_mem _ hl))
        fun l hl => hp l (List.mem_cons_of_mem _ hl)
      cases hv : (visible line).head? with
      | none => rwa [Option.none_or]
      | some c => rwa [hv] at hline
  rw [visible, ← @head?_spaced isBlank needsSeparator] at hhead
  cases hs : spaced isBlank needsSeparator none false (joinLf lines) with
  | nil => rfl
  | cons c text =>
    rw [hs] at hhead
    have hc : isBlank c = false := head?_spaced_visible (congrArg List.head? hs)
    rw [isDirectiveLine_cons (not_isLinearBlank hc)]
    simpa using hhead

/-- A block is written with the outline of its lines. -/
theorem outlineFrom_form {b : Block} (h : b.Sorted) (hp : ∀ line ∈ b.lines, PlainLine line)
    (n : Nat) {rest rest' : List (List Char)}
    (hrest : ∀ m, outlineFrom m rest = outlineFrom m rest') :
    outlineFrom n (b.form.toList ++ rest) = outlineFrom n (b.lines ++ rest') := by
  have hvis := visible_form h hp
  cases b with
  | directive line =>
    have hline : isDirectiveLine line = true := h
    rw [Block.lines, List.flatMap_singleton] at hvis
    rw [Block.form, Option.getD_some] at hvis
    rw [Block.form, Option.toList_some, Block.lines, List.singleton_append, List.singleton_append,
      outlineFrom, outlineFrom, if_pos hline, if_pos (isDirectiveLine_hash _), hvis,
      hrest]
  | code lines =>
    rw [show (Block.code lines).lines = lines from rfl] at hp hvis ⊢
    rw [outlineFrom_append_code h, ← hrest, ← hvis, Block.form]
    split
    · rfl
    · rw [Option.toList_some, List.singleton_append, Option.getD_some, outlineFrom,
        if_neg (by simp [isDirectiveLine_spaced h hp])]

theorem outlineFrom_filterMap_form {bs : List Block} (h : ∀ b ∈ bs, b.Sorted)
    (hp : ∀ line ∈ bs.flatMap Block.lines, PlainLine line) (n : Nat) :
    outlineFrom n (bs.filterMap Block.form) = outlineFrom n (bs.flatMap Block.lines) := by
  induction bs generalizing n with
  | nil => rfl
  | cons b bs ih =>
    rw [List.flatMap_cons] at hp ⊢
    have hrest := ih (fun b' hb' => h b' (List.mem_cons_of_mem _ hb'))
      fun line hl => hp line (List.mem_append_right _ hl)
    have hform : (b :: bs).filterMap Block.form = b.form.toList ++ bs.filterMap Block.form := by
      rw [List.filterMap_cons]
      cases b.form <;> rfl
    rw [hform]
    exact outlineFrom_form (h b List.mem_cons_self)
      (fun line hl => hp line (List.mem_append_left _ hl)) n hrest

/-- Compressing a text with plain blanks keeps its outline. -/
theorem outline_compress {s : List Char} (h : PlainBlanks s) (hcr : '\r' ∉ s) :
    outline (compress s) = outline s := by
  have hforms : outlineFrom 0 ((blocks (splitLf s)).filterMap Block.form) = outline s := by
    rw [outlineFrom_filterMap_form fun b => sorted_of_mem_blocks, flatMap_lines_blocks, outline]
    rw [flatMap_lines_blocks]
    exact fun line hl => h.plainLine hl
  have hlf : ∀ line ∈ (blocks (splitLf s)).filterMap Block.form, '\n' ∉ line := by
    rw [← map_written_tidyLines h]
    intro text htext
    obtain ⟨line, hline, rfl⟩ := List.mem_map.mp htext
    exact ((settled_tidyLines hcr).written line hline).2.1
  rw [compress_eq_blocks h, ← hforms, outline]
  by_cases hnil : (blocks (splitLf s)).filterMap Block.form = []
  · rw [hnil]
    rfl
  · rw [splitLf_joinLf hnil hlf]

/-! ## Reading the outline off the text -/

/-- The number of directives begun after one more character. -/
def begun (k : LineKind) (c : Char) (n : Nat) : Nat :=
  if k = .blank ∧ k.push c = .directive then n + 1 else n

/-- What the outline notes for a character on a line of kind `k`. -/
def mark (k : LineKind) (n : Nat) : Option Nat := if k = .directive then some n else none

/-- The outline of a text that continues a line of kind `k`, after `n` directives were begun. -/
def strokes (k : LineKind) (n : Nat) : List Char → List (Char × Option Nat)
  | [] => []
  | c :: r =>
    if isBlank c then strokes (k.push c) (begun k c n) r
    else (c, mark (k.push c) (begun k c n)) :: strokes (k.push c) (begun k c n) r

theorem begun_of_ne {k : LineKind} (h : k ≠ .blank) (c : Char) (n : Nat) : begun k c n = n :=
  if_neg fun hk => h hk.1

theorem strokes_visible {c : Char} (hc : isBlank c = false) (k : LineKind) (n : Nat)
    (r : List Char) :
    strokes k n (c :: r) =
      (c, mark (k.push c) (begun k c n)) :: strokes (k.push c) (begun k c n) r := by
  rw [strokes, if_neg (by simp [hc])]

/-- Plain blanks begin no directive. -/
theorem strokes_plain_blank {c : Char} (hc : isLinearBlank c = true ∨ c = '\n') (k : LineKind)
    (n : Nat) (r : List Char) : strokes k n (c :: r) = strokes (k.push c) n r := by
  have hb : isBlank c = true := by
    rcases hc with hc | rfl
    · exact isBlank_of_isLinearBlank hc
    · exact isBlank_lf
  have hbegun : begun k c n = n := by
    refine if_neg ?_
    rintro ⟨rfl, h⟩
    rcases hc with hc | rfl
    · rw [push_linear hc] at h
      exact absurd h (by decide)
    · exact absurd h (by decide)
  rw [strokes, if_pos hb, hbegun]

theorem strokes_linear {c : Char} (hc : isLinearBlank c = true) (k : LineKind) (n : Nat)
    (r : List Char) : strokes k n (c :: r) = strokes k n r := by
  rw [strokes_plain_blank (Or.inl hc), push_linear hc]

theorem strokes_lf (k : LineKind) (n : Nat) (r : List Char) :
    strokes k n ('\n' :: r) = strokes .blank n r := by
  rw [strokes_plain_blank (Or.inr rfl), push_lf]

theorem strokes_append_blanks {w : List Char} (hw : ∀ c ∈ w, c = ' ' ∨ c = '\n') (k : LineKind)
    (n : Nat) (t : List Char) : strokes k n (w ++ t) = strokes (w.foldl LineKind.push k) n t := by
  induction w generalizing k with
  | nil => rfl
  | cons c w ih =>
    have hc : isLinearBlank c = true ∨ c = '\n' := by
      refine (hw c List.mem_cons_self).imp_left ?_
      rintro rfl
      exact isLinearBlank_space
    rw [List.cons_append, List.foldl_cons, strokes_plain_blank hc,
      ih fun d hd => hw d (List.mem_cons_of_mem _ hd)]

/-- Once a line is no longer blank, its kind stays. -/
theorem strokes_append_line {k : LineKind} (hk : k ≠ .blank) {line : List Char} (hlf : '\n' ∉ line)
    (n : Nat) (t : List Char) :
    strokes k n (line ++ t) = (visible line).map (fun c => (c, mark k n)) ++ strokes k n t := by
  induction line with
  | nil => rfl
  | cons c line ih =>
    have hc : c ≠ '\n' := fun h => hlf (h ▸ List.mem_cons_self)
    have hpush : k.push c = k := push_of_ne hk hc
    rw [List.cons_append, strokes, hpush, begun_of_ne hk,
      ih fun h => hlf (List.mem_cons_of_mem _ h)]
    by_cases hc : isBlank c = true
    · rw [if_pos hc, visible_cons_of_blank hc]
    · rw [if_neg hc, visible_cons (by simpa using hc), List.map_cons, List.cons_append]

theorem strokes_line {line : List Char} (hlf : '\n' ∉ line) (n : Nat) {t : List Char}
    (ht : ∀ k m, strokes k m t = strokes .blank m t) :
    strokes .blank n (line ++ t) =
      if isDirectiveLine line then
        (visible line).map (fun c => (c, some (n + 1))) ++ strokes .blank (n + 1) t
      else (visible line).map (fun c => (c, none)) ++ strokes .blank n t := by
  induction line with
  | nil => rfl
  | cons c line ih =>
    simp only [List.mem_cons, not_or] at hlf
    by_cases hc : isLinearBlank c = true
    · rw [List.cons_append, strokes_linear hc, ih hlf.2, isDirectiveLine_cons_linear hc,
        visible_cons_of_blank (isBlank_of_isLinearBlank hc)]
    · by_cases hhash : c = '#'
      · subst hhash
        rw [List.cons_append, strokes_visible (by simp),
          show LineKind.blank.push '#' = .directive from rfl,
          strokes_append_line (by simp) hlf.2, ht, isDirectiveLine_hash, if_pos rfl]
        rfl
      · rw [Bool.not_eq_true] at hc
        have hpush : LineKind.blank.push c = .code := push_blank (Ne.symm hlf.1) hc hhash
        have hbegun : begun .blank c n = n := if_neg (by simp [hpush])
        have hcode := strokes_append_line (k := .code) (by simp) hlf.2 n t
        rw [isDirectiveLine_cons hc, if_neg (by simpa using hhash), List.cons_append, strokes,
          hpush, hbegun, hcode, ht]
        by_cases hb : isBlank c = true
        · rw [if_pos hb, visible_cons_of_blank hb]
          rfl
        · rw [if_neg hb, visible_cons (by simpa using hb)]
          rfl

theorem outline_eq_strokes (s : List Char) : outline s = strokes .blank 0 s := by
  have key : ∀ n, outlineFrom n (splitLf s) = strokes .blank n s := by
    refine splitLf_induction
      (P := fun s lines => ∀ n, outlineFrom n lines = strokes .blank n s) ?_ ?_ s
    · intro line hlf n
      have := strokes_line hlf n (t := []) fun _ _ => rfl
      rw [List.append_nil] at this
      rw [this, outlineFrom]
      rfl
    · intro line rest hlf ih n
      rw [strokes_line hlf n fun k m => strokes_lf k m rest, outlineFrom, ih, ih, strokes_lf,
        strokes_lf]
  exact key 0

/-! ## Side by side -/

/-- The line of the debug variant is of the same kind as that of the release variant, or it was
just broken. -/
def Lags (kd k : LineKind) : Prop := kd = k ∨ kd = .blank

/-- What is left of the text, seen by the release variant, goes on alike for both. -/
def agrees (kd k : LineKind) (ps : List Piece) : Prop :=
  (kd ≠ k → mayBreak k ps = true) ∧ seamless k ps = true

/-- From here on the two variants have one outline just if they agree, and are then cut the same
way. -/
def RunsAlike (kd k : LineKind) (n : Nat) (s : List Char) (ps : List Piece) : Prop :=
  (strokes kd n ((pieces .debug kd s).flatMap (Piece.written .debug)) =
      strokes k n (ps.flatMap (Piece.written .release)) ↔ agrees kd k ps) ∧
    (agrees kd k ps → pieces .debug kd s = ps)

theorem agrees_self {k : LineKind} {ps : List Piece} : agrees k k ps ↔ seamless k ps = true :=
  and_iff_right fun h => absurd rfl h

theorem foldl_push_blanks {w : List Char} (hw : ∀ c ∈ w, c = ' ' ∨ c = '\n') (k : LineKind) :
    w.foldl LineKind.push k = if '\n' ∈ w then .blank else k := by
  induction w generalizing k with
  | nil => rfl
  | cons c w ih =>
    rw [List.foldl_cons, ih fun d hd => hw d (List.mem_cons_of_mem _ hd)]
    rcases hw c List.mem_cons_self with rfl | rfl
    · rw [push_linear isLinearBlank_space]
      simp
    · rw [push_lf]
      simp

/-- The debug variant breaks its line at a comment with a line feed. -/
theorem pushPiece_comment_debug (k : LineKind) (text : List Char) :
    k.pushPiece .debug (.comment text) = if '\n' ∈ text then .blank else k := by
  have hmem : '\n' ∈ (Piece.comment text).written .debug ↔ '\n' ∈ text := by
    rw [Piece.written, List.mem_map]
    constructor
    · rintro ⟨c, hc, heq⟩
      by_cases hlf : c = '\n'
      · exact hlf ▸ hc
      · exact absurd heq (by simp [hlf])
    · exact fun h => ⟨'\n', h, rfl⟩
  rw [LineKind.pushPiece, foldl_push_blanks fun c => mem_written_comment]
  simp only [hmem]

/-- The release variant does not. -/
theorem pushPiece_comment_release (k : LineKind) (text : List Char) :
    k.pushPiece .release (.comment text) = k :=
  push_linear isLinearBlank_space k

theorem mayBreak_comment (k : LineKind) (text : List Char) (ps : List Piece) :
    mayBreak k (.comment text :: ps) = mayBreak k ps := by
  cases k <;> rfl

theorem agrees_comment {kd k : LineKind} {text : List Char} {ps : List Piece} :
    agrees kd k (.comment text :: ps) ↔ agrees (if '\n' ∈ text then .blank else kd) k ps := by
  have hblank : LineKind.blank = k → mayBreak k ps = true := by
    rintro rfl
    rfl
  unfold agrees
  rw [mayBreak_comment, seamless, Bool.and_eq_true, ← and_assoc]
  refine and_congr_left fun _ => ?_
  by_cases hlf : '\n' ∈ text
  · simp only [hlf, List.contains_eq_mem, if_true, decide_true, Bool.not_true, Bool.false_or]
    constructor
    · exact fun h _ => h.2
    · intro h
      have hbreak : mayBreak k ps = true := by
        by_cases hk : LineKind.blank = k
        · exact hblank hk
        · exact h hk
      exact ⟨fun _ => hbreak, hbreak⟩
  · simp [hlf]

theorem runsAlike_comment {kd k : LineKind} {n : Nat} {text rest : List Char} {ps : List Piece}
    (h : IsComment text rest)
    (hrest : RunsAlike (if '\n' ∈ text then .blank else kd) k n rest ps) :
    RunsAlike kd k n (text ++ rest) (.comment text :: ps) := by
  have hdebug := pieces_comment .debug kd h
  have hkind := pushPiece_comment_debug kd text
  rw [hkind] at hdebug
  rw [LineKind.pushPiece] at hkind
  unfold RunsAlike
  rw [hdebug, List.flatMap_cons, List.flatMap_cons,
    strokes_append_blanks fun c => mem_written_comment, hkind, Piece.written,
    List.singleton_append, strokes_linear isLinearBlank_space, agrees_comment]
  exact ⟨hrest.1, fun ha => congrArg _ (hrest.2 ha)⟩

/-- A plain blank leaves the two runs as they are. -/
theorem agrees_plain_blank {kd k : LineKind} {c : Char} (hc : isLinearBlank c = true ∨ c = '\n')
    {ps : List Piece} : agrees kd k (.kept c :: ps) ↔ agrees (kd.push c) (k.push c) ps := by
  rcases hc with hc | rfl
  · have hlf : c ≠ '\n' := lf_ne_of_isLinearBlank hc
    have hnext : nextVisible (.kept c :: ps) = nextVisible ps := by
      rw [nextVisible, if_neg hlf, if_pos (isBlank_of_isLinearBlank hc)]
    have hbreak : mayBreak k (.kept c :: ps) = mayBreak k ps := by
      cases k <;> simp [mayBreak, hnext]
    rw [agrees, agrees, hbreak, seamless, push_linear hc, push_linear hc]
  · rw [push_lf, push_lf, agrees_self, agrees, seamless, push_lf]
    refine and_iff_right fun _ => ?_
    cases k <;> rfl

theorem pieces_kept_of_lags {kd k : LineKind} (hlag : Lags kd k) {c : Char} {r : List Char}
    (hstart : ¬ StartsComment (c :: r)) (hquote : c = '"' → k ≠ .directive) :
    pieces .debug kd (c :: r) = .kept c :: pieces .debug (kd.push c) r := by
  refine pieces_kept .debug hstart fun hc => ?_
  rcases hlag with rfl | rfl
  · exact hquote hc
  · simp

theorem runsAlike_plain_blank {kd k : LineKind} (hlag : Lags kd k) {n : Nat} {c : Char}
    (hc : isLinearBlank c = true ∨ c = '\n') {r : List Char} {ps : List Piece}
    (hstart : ¬ StartsComment (c :: r)) (hquote : c = '"' → k ≠ .directive)
    (hrest : RunsAlike (kd.push c) (k.push c) n r ps) :
    RunsAlike kd k n (c :: r) (.kept c :: ps) := by
  unfold RunsAlike
  rw [pieces_kept_of_lags hlag hstart hquote, List.flatMap_cons, List.flatMap_cons, Piece.written,
    Piece.written, List.singleton_append, List.singleton_append, strokes_plain_blank hc,
    strokes_plain_blank hc, agrees_plain_blank hc]
  exact ⟨hrest.1, fun ha => congrArg _ (hrest.2 ha)⟩

/-- On lines of one kind both variants write a visible character in the same place. -/
theorem runsAlike_visible {k : LineKind} {n : Nat} {c : Char} (hc : isBlank c = false)
    {r : List Char} {ps : List Piece} (hstart : ¬ StartsComment (c :: r))
    (hquote : c = '"' → k ≠ .directive)
    (hrest : RunsAlike (k.push c) (k.push c) (begun k c n) r ps) :
    RunsAlike k k n (c :: r) (.kept c :: ps) := by
  obtain ⟨hiff, hpieces⟩ := hrest
  rw [agrees_self] at hiff hpieces
  unfold RunsAlike
  rw [pieces_kept .debug hstart hquote, List.flatMap_cons, List.flatMap_cons, Piece.written,
    Piece.written, List.singleton_append, List.singleton_append, strokes_visible hc,
    strokes_visible hc, List.cons.injEq, and_iff_right rfl, agrees_self, seamless]
  exact ⟨hiff, fun ha => congrArg _ (hpieces ha)⟩

theorem mayBreak_visible {k : LineKind} {c : Char} (hc : isBlank c = false) (ps : List Piece) :
    mayBreak k (.kept c :: ps) = true ↔ k = .blank ∨ (k = .code ∧ c ≠ '#') := by
  have hlf : c ≠ '\n' := ne_of_not_isBlank hc isBlank_lf
  have hnext : nextVisible (.kept c :: ps) = some c := by
    rw [nextVisible, if_neg hlf, if_neg (by simp [hc])]
  cases k <;> simp [mayBreak, hnext]

/-- Code that is broken goes on as code if what follows is no `#`. -/
theorem runsAlike_broken_code {n : Nat} {c : Char} (hc : isBlank c = false) (hhash : c ≠ '#')
    {r : List Char} {ps : List Piece} (hstart : ¬ StartsComment (c :: r))
    (hrest : RunsAlike .code .code n r ps) : RunsAlike .blank .code n (c :: r) (.kept c :: ps) := by
  have hlf : c ≠ '\n' := ne_of_not_isBlank hc isBlank_lf
  have hpush : LineKind.blank.push c = .code := push_blank hlf (not_isLinearBlank hc) hhash
  have hbegun : begun .blank c n = n := if_neg (by simp [hpush])
  obtain ⟨hiff, hpieces⟩ := hrest
  rw [agrees_self] at hiff hpieces
  unfold RunsAlike
  have hagrees : agrees .blank .code (.kept c :: ps) ↔ seamless .code ps = true := by
    rw [agrees, seamless, push_code hlf, mayBreak_visible hc]
    exact and_iff_right fun _ => Or.inr ⟨rfl, hhash⟩
  rw [pieces_kept .debug hstart fun _ => by simp, List.flatMap_cons, List.flatMap_cons,
    Piece.written, Piece.written, List.singleton_append, List.singleton_append, strokes_visible hc,
    strokes_visible hc, hpush, push_code hlf, hbegun, begun_of_ne (by simp), List.cons.injEq,
    and_iff_right rfl, hagrees]
  exact ⟨hiff, fun ha => congrArg _ (hpieces ha)⟩

/-- Anything visible behind a broken directive, and a `#` behind broken code, lies on another line
in the debug variant. -/
theorem runsAlike_broken {k : LineKind} (hk : k ≠ .blank) {n : Nat} {c : Char}
    (hc : isBlank c = false) (hbreak : ¬ (k = .code ∧ c ≠ '#')) {r : List Char} {ps : List Piece}
    (hstart : ¬ StartsComment (c :: r)) : RunsAlike .blank k n (c :: r) (.kept c :: ps) := by
  have hlf : c ≠ '\n' := ne_of_not_isBlank hc isBlank_lf
  have hnot : ¬ agrees .blank k (.kept c :: ps) := by
    rintro ⟨h, -⟩
    rcases (mayBreak_visible hc ps).mp (h (Ne.symm hk)) with h | h
    · exact hk h
    · exact hbreak h
  refine ⟨iff_of_false ?_ hnot, fun h => absurd h hnot⟩
  rw [pieces_kept .debug hstart fun _ => by simp, List.flatMap_cons, List.flatMap_cons,
    Piece.written, Piece.written, List.singleton_append, List.singleton_append, strokes_visible hc,
    strokes_visible hc, List.cons.injEq, push_of_ne hk hlf, begun_of_ne hk]
  rintro ⟨hmark, -⟩
  rw [Prod.mk.injEq, and_iff_right rfl] at hmark
  -- A `#` begins one more directive in the debug variant; anything else is code there.
  by_cases hhash : c = '#'
  · subst hhash
    rw [show LineKind.blank.push '#' = .directive from rfl] at hmark
    cases k <;> simp [mark, begun, LineKind.push, isLinearBlank] at hmark
  · rw [push_blank hlf (not_isLinearBlank hc) hhash] at hmark
    cases k with
    | blank => exact hk rfl
    | directive => exact absurd hmark (by simp [mark])
    | code => exact hbreak ⟨rfl, hhash⟩

theorem seamless_map_kept {l : List Char} (hlf : '\n' ∉ l) (ps : List Piece) :
    seamless .directive (l.map .kept ++ ps) = seamless .directive ps := by
  induction l with
  | nil => rfl
  | cons c l ih =>
    have hc : c ≠ '\n' := fun h => hlf (h ▸ List.mem_cons_self)
    rw [List.map_cons, List.cons_append, seamless, push_directive hc,
      ih fun h => hlf (List.mem_cons_of_mem _ h)]

theorem lf_notMem_cutQuoted (r : List Char) : '\n' ∉ (cutQuoted r).1 := by
  obtain ⟨body, -, hlf, h | ⟨h, -⟩⟩ := cutQuoted_cases r
  · rw [h]
    simp [hlf]
  · rwa [h]

/-- A quotation on a directive is copied by both variants. -/
theorem runsAlike_quoted {n : Nat} {r : List Char} {ps : List Piece}
    (hrest : RunsAlike .directive .directive n (cutQuoted r).2 ps) :
    RunsAlike .directive .directive n ('"' :: r)
      (.kept '"' :: ((cutQuoted r).1.map .kept ++ ps)) := by
  have hlf : '\n' ∉ '"' :: (cutQuoted r).1 := by simp [lf_notMem_cutQuoted r]
  have hwritten : ∀ (v : Variant) (qs : List Piece),
      (Piece.kept '"' :: ((cutQuoted r).1.map .kept ++ qs)).flatMap (Piece.written v) =
        ('"' :: (cutQuoted r).1) ++ qs.flatMap (Piece.written v) := by
    intro v qs
    rw [List.flatMap_cons, List.flatMap_append, flatMap_written_map_kept]
    rfl
  obtain ⟨hiff, hpieces⟩ := hrest
  rw [agrees_self] at hiff hpieces
  unfold RunsAlike
  rw [pieces_quoted, hwritten, hwritten, strokes_append_line (by simp) hlf,
    strokes_append_line (by simp) hlf, List.append_cancel_left_eq, agrees_self, seamless,
    push_directive (by simp), seamless_map_kept (lf_notMem_cutQuoted r)]
  exact ⟨hiff, fun ha => by rw [hpieces ha]⟩

/-- A kept character, whatever it is and wherever the debug line stands. -/
theorem runsAlike_kept {kd k : LineKind} (hlag : Lags kd k) (n : Nat) {c : Char} {r : List Char}
    {ps : List Piece} (hstart : ¬ StartsComment (c :: r)) (hquote : c = '"' → k ≠ .directive)
    (hplain : isBlank c = true → isLinearBlank c = true ∨ c = '\n')
    (hrest : ∀ kd' n', Lags kd' (k.push c) → RunsAlike kd' (k.push c) n' r ps) :
    RunsAlike kd k n (c :: r) (.kept c :: ps) := by
  by_cases hc : isBlank c = true
  · refine runsAlike_plain_blank hlag (hplain hc) hstart hquote (hrest _ n ?_)
    rcases hplain hc with hlin | rfl
    · rw [push_linear hlin, push_linear hlin]
      exact hlag
    · exact Or.inl rfl
  · rw [Bool.not_eq_true] at hc
    by_cases hsame : kd = k
    · subst hsame
      exact runsAlike_visible hc hstart hquote (hrest _ _ (Or.inl rfl))
    · -- The debug line was broken, and `c` is the first visible character behind the break.
      obtain rfl := hlag.resolve_left hsame
      by_cases hbreak : k = .code ∧ c ≠ '#'
      · obtain ⟨rfl, hhash⟩ := hbreak
        rw [push_code (ne_of_not_isBlank hc isBlank_lf)] at hrest
        exact runsAlike_broken_code hc hhash hstart (hrest _ n (Or.inl rfl))
      · exact runsAlike_broken (Ne.symm hsame) hc hbreak hstart

/-- The two scanners, side by side over any text with plain blanks. -/
theorem runsAlike_pieces {k : LineKind} {s : List Char} (hplain : PlainBlanks s) {kd : LineKind}
    (hlag : Lags kd k) (n : Nat) : RunsAlike kd k n s (pieces .release k s) := by
  refine pieces_induction .release
    (P := fun k s ps => PlainBlanks s → ∀ kd n, Lags kd k → RunsAlike kd k n s ps)
    ?_ ?_ ?_ ?_ k s hplain kd n hlag
  · intro k _ kd n _
    have hnil : agrees kd k [] := ⟨fun _ => by cases k <;> rfl, rfl⟩
    unfold RunsAlike
    rw [pieces_nil]
    exact ⟨iff_of_true rfl hnil, fun _ => rfl⟩
  · intro k text rest htext ih hplain kd n hlag
    rw [pushPiece_comment_release] at ih ⊢
    refine runsAlike_comment htext (ih (fun c hc => hplain c (List.mem_append_right _ hc)) _ n ?_)
    split
    · exact Or.inr rfl
    · exact hlag
  · intro r ih hplain kd n hlag
    rcases hlag with rfl | rfl
    · refine runsAlike_quoted (ih (fun c hc => hplain c ?_) _ n (Or.inl rfl))
      rw [← cutQuoted_append r]
      exact List.mem_cons_of_mem _ (List.mem_append_right _ hc)
    · -- The quote itself is on another line.
      exact runsAlike_broken (by simp) (by simp) (by simp)
        fun hs => absurd (head?_of_startsComment hs) (by simp)
  · intro k c r hstart hquote ih hplain kd n hlag
    exact runsAlike_kept hlag n hstart hquote (hplain c List.mem_cons_self)
      (ih fun d hd => hplain d (List.mem_cons_of_mem _ hd))

/-! ## Both variants -/

/-- The blanks among the first 128 characters are plain. -/
theorem plain_of_toNat_lt {c : Char} (hc : c.toNat < 128) (hb : isBlank c = true) :
    isLinearBlank c = true ∨ c = '\r' ∨ c = '\n' := by
  have key : ∀ n < 128, isBlank (Char.ofNat n) = true →
      isLinearBlank (Char.ofNat n) = true ∨ Char.ofNat n = '\r' ∨ Char.ofNat n = '\n' := by decide
  have := key c.toNat hc
  rw [Char.ofNat_toNat] at this
  exact this hb

/-- **The variants of a source are one program exactly where its comments are seamless**, and then
the scanner finds the same comments and quotations for both. -/
theorem outline_minify_iff (source : List Char) (h : ∀ c ∈ source, c.toNat < 128) :
    (outline (minify .debug source) = outline (minify .release source) ↔
      seamless .blank (pieces .release .blank (normalizeEnds source)) = true) ∧
    (seamless .blank (pieces .release .blank (normalizeEnds source)) = true →
      pieces .debug .blank (normalizeEnds source) =
        pieces .release .blank (normalizeEnds source)) := by
  have hplain : PlainBlanks (normalizeEnds source) :=
    plainBlanks_normalizeEnds fun c hc => plain_of_toNat_lt (h c hc)
  have hdebug : outline (minify .debug source) =
      strokes .blank 0 (stripComments .debug (normalizeEnds source)) := by
    rw [← outline_eq_strokes]
    exact outline_trimLines _
  have hrelease : outline (minify .release source) =
      strokes .blank 0 (stripComments .release (normalizeEnds source)) := by
    rw [← outline_eq_strokes]
    exact outline_compress (hplain.stripComments .release)
      (cr_notMem_stripComments .release source)
  have hruns := runsAlike_pieces hplain (Or.inl rfl) (k := .blank) 0
  rw [hdebug, hrelease, ← agrees_self]
  exact hruns

/-- One comment in a text without other slashes and quotes. -/
theorem pieces_around_comment (v : Variant) (before : List Char) {text after : List Char}
    (hbefore : '/' ∉ before ∧ '"' ∉ before) (htext : IsComment text after)
    (hafter : '/' ∉ after ∧ '"' ∉ after) :
    pieces v .blank (before ++ (text ++ after)) =
      before.map .kept ++ .comment text :: after.map .kept := by
  rw [pieces_append v hbefore.1 hbefore.2, pieces_comment v _ htext, ← List.append_nil after,
    pieces_append v hafter.1 hafter.2, pieces_nil, List.append_nil, List.append_nil]

/-- A comment that takes two lines, in front of a directive. -/
theorem outline_minify_seamless :
    (∀ c ∈ "/* a\n */ #define X 1".toList, c.toNat < 128) ∧
      outline (minify .debug "/* a\n */ #define X 1".toList) =
        outline (minify .release "/* a\n */ #define X 1".toList) := by
  have hascii : ∀ c ∈ "/* a\n */ #define X 1".toList, c.toNat < 128 := by simp
  have htext : IsComment "/* a\n */".toList " #define X 1".toList :=
    .block (show ¬ ['*', '/'] <:+: [' ', 'a', '\n', ' '] ++ ['*'] by decide)
  have hpieces : pieces .release .blank (normalizeEnds "/* a\n */ #define X 1".toList) =
      .comment "/* a\n */".toList :: " #define X 1".toList.map .kept :=
    pieces_around_comment .release [] (by simp) htext (by simp)
  refine ⟨hascii, (outline_minify_iff _ hascii).1.mpr ?_⟩
  rw [hpieces]
  rfl

/-- A comment that takes two lines within a directive: the debug variant defines `X` as nothing and
goes on with a line of code. -/
theorem outline_minify_broken :
    minify .debug "#define X /* a\n */ 1".toList = "#define X\n    1".toList ∧
      minify .release "#define X /* a\n */ 1".toList = "#define X 1".toList ∧
      outline (minify .debug "#define X /* a\n */ 1".toList) ≠
        outline (minify .release "#define X /* a\n */ 1".toList) := by
  have htext : IsComment "/* a\n */".toList " 1".toList :=
    .block (show ¬ ['*', '/'] <:+: [' ', 'a', '\n', ' '] ++ ['*'] by decide)
  have hpieces : ∀ v, pieces v .blank (normalizeEnds "#define X /* a\n */ 1".toList) =
      "#define X ".toList.map .kept ++ .comment "/* a\n */".toList :: " 1".toList.map .kept :=
    fun v => pieces_around_comment v "#define X ".toList (by simp) htext (by simp)
  have hdebug : minify .debug "#define X /* a\n */ 1".toList = "#define X\n    1".toList := by
    rw [minify, stripComments, hpieces]
    rfl
  have hrelease : minify .release "#define X /* a\n */ 1".toList = "#define X 1".toList := by
    rw [minify, stripComments, hpieces]
    rfl
  rw [hdebug, hrelease]
  exact ⟨rfl, rfl, by decide⟩

end AssetPack.Glsl
