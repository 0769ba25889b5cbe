import AssetPack.Proofs.Glsl.Pieces
import AssetPack.Proofs.Glsl.Spacing

/-!
# The release variant is the shortest text with the same tokens

`compress` works in four passes over a list of lines. What comes out can be said in one sentence,
and `compress_eq_blocks` says it: cut the lines into *blocks*, each directive by itself and the
code between two of them together, and write each block on one line, spaced out by `spaced`.
A block of nothing but blanks is not written.

That needs a text whose only blanks are linear ones and line feeds (`PlainBlanks`). A no-break
space at the end of a line is trimmed away and in the middle of one it is kept, so it is neither a
blank nor a character in the sense of `spaced`; a line that begins with one can even turn into a
directive.

The induction is over the lines, last one first, which is the order in which `joinLines` works.
`Alternating` is what it needs of the blocks behind a line: a blank block may be dropped only
because no second block of code follows it.
-/

set_option autoImplicit false

namespace AssetPack.Glsl

open AssetPack.Text

/-- The characters of a text that are no blanks. -/
def visible (s : List Char) : List Char := s.filter fun c => !isBlank c

/-- Whether the first character of a line other than linear blanks is `#`. -/
def isDirectiveLine (line : List Char) : Bool := (line.dropWhile isLinearBlank).head? == some '#'

/-- A directive by itself, or a run of other lines. -/
inductive Block where
  | directive (line : List Char)
  | code (lines : List (List Char))
  deriving DecidableEq, Repr

/-- The lines of a block. -/
def Block.lines : Block → List (List Char)
  | .directive line => [line]
  | .code lines => lines

/-- Blocks with a line of code in front, which goes into the first one if that is code too. -/
def consLine (line : List Char) : List Block → List Block
  | .code lines :: rest => .code (line :: lines) :: rest
  | rest => .code [line] :: rest

/-- The directives of a text and the maximal runs of other lines between them. -/
def blocks : List (List Char) → List Block
  | [] => []
  | line :: rest =>
    if isDirectiveLine line then .directive line :: blocks rest else consLine line (blocks rest)

/-- The line a block is written on, if it is written. Of a directive that is the `#` and the rest
with one space for each run of blanks between two of its characters; of code, all its visible
characters with a space only where a blank or a line end was passed and a separator is needed. -/
def Block.form : Block → Option (List Char)
  | .directive line =>
    some ('#' :: spaced isLinearBlank (fun _ _ => true) none false
      (line.dropWhile isLinearBlank).tail)
  | .code lines =>
    if (joinLf lines).all isBlank then none
    else some (spaced isBlank needsSeparator none false (joinLf lines))

/-! ## One character in front -/

theorem visible_cons_of_blank {c : Char} (hc : isBlank c = true) (s : List Char) :
    visible (c :: s) = visible s :=
  List.filter_cons_of_neg (by simp [hc])

theorem visible_cons {c : Char} (hc : isBlank c = false) (s : List Char) :
    visible (c :: s) = c :: visible s :=
  List.filter_cons_of_pos (by simp [hc])

theorem isDirectiveLine_cons_linear {c : Char} (hc : isLinearBlank c = true) (line : List Char) :
    isDirectiveLine (c :: line) = isDirectiveLine line := by
  rw [isDirectiveLine, List.dropWhile_cons_of_pos hc]
  rfl

theorem isDirectiveLine_cons {c : Char} (hc : isLinearBlank c = false) (line : List Char) :
    isDirectiveLine (c :: line) = (c == '#') := by
  rw [isDirectiveLine, List.dropWhile_cons_of_neg (by simp [hc])]
  rfl

theorem isDirectiveLine_hash (line : List Char) : isDirectiveLine ('#' :: line) = true := rfl

/-! ## Blocks are the lines, taken together -/

/-- Each block of code has a line, and none follows another. -/
def Alternating : List Block → Prop
  | [] => True
  | .directive _ :: rest => Alternating rest
  | .code lines :: rest =>
    lines ≠ [] ∧ (∀ next, rest.head? ≠ some (.code next)) ∧ Alternating rest

theorem alternating_consLine {line : List Char} {bs : List Block} (h : Alternating bs) :
    Alternating (consLine line bs) := by
  cases bs with
  | nil => exact ⟨by simp, by simp, trivial⟩
  | cons b rest =>
    cases b with
    | directive l => exact ⟨by simp, by simp, h⟩
    | code lines => exact ⟨by simp, h.2⟩

theorem alternating_blocks (lines : List (List Char)) : Alternating (blocks lines) := by
  induction lines with
  | nil => trivial
  | cons line rest ih =>
    rw [blocks]
    split
    · exact ih
    · exact alternating_consLine ih

theorem flatMap_lines_consLine (line : List Char) (bs : List Block) :
    (consLine line bs).flatMap Block.lines = line :: bs.flatMap Block.lines := by
  cases bs with
  | nil => rfl
  | cons b rest => cases b <;> rfl

/-- The blocks hold every line once, in order. -/
theorem flatMap_lines_blocks (lines : List (List Char)) :
    (blocks lines).flatMap Block.lines = lines := by
  induction lines with
  | nil => rfl
  | cons line rest ih =>
    rw [blocks]
    split
    · simp [Block.lines, ih]
    · rw [flatMap_lines_consLine, ih]

/-- A block of one kind holds lines of that kind. -/
def Block.Sorted : Block → Prop
  | .directive line => isDirectiveLine line = true
  | .code lines => ∀ line ∈ lines, isDirectiveLine line = false

theorem sorted_of_mem_blocks {lines : List (List Char)} {b : Block} (h : b ∈ blocks lines) :
    b.Sorted := by
  induction lines generalizing b with
  | nil => exact absurd h (by simp [blocks])
  | cons line rest ih =>
    rw [blocks] at h
    split at h
    · rename_i hd
      rcases List.mem_cons.mp h with rfl | h
      · exact hd
      · exact ih h
    · rename_i hd
      rw [Bool.not_eq_true] at hd
      unfold consLine at h
      split at h
      · rename_i ls bs hbs
        rcases List.mem_cons.mp h with rfl | h
        · intro l hl
          rcases List.mem_cons.mp hl with rfl | hl
          · exact hd
          · exact ih (b := .code ls) (by rw [hbs]; exact List.mem_cons_self) l hl
        · exact ih (by rw [hbs]; exact List.mem_cons_of_mem _ h)
      · rcases List.mem_cons.mp h with rfl | h
        · intro l hl
          rwa [List.mem_singleton.mp hl]
        · exact ih h

/-! ## One line -/

/-- A text whose blanks are space, tab, vertical tab, form feed and line feed. -/
def PlainBlanks (s : List Char) : Prop :=
  ∀ c ∈ s, isBlank c = true → isLinearBlank c = true ∨ c = '\n'

/-- A line on which the two notions of a blank are one. -/
def PlainLine (line : List Char) : Prop := ∀ c ∈ line, isBlank c = isLinearBlank c

theorem PlainBlanks.plainLine {s line : List Char} (h : PlainBlanks s) (hl : line ∈ splitLf s) :
    PlainLine line := by
  intro c hc
  by_cases hb : isBlank c = true
  · rcases h c (mem_of_mem_splitLf hl hc) hb with hlin | rfl
    · rw [hb, hlin]
    · exact absurd hc (lf_notMem_of_mem_splitLf hl)
  · by_cases hlin : isLinearBlank c = true
    · exact absurd (isBlank_of_isLinearBlank hlin) hb
    · rw [Bool.not_eq_true] at hb hlin
      rw [hb, hlin]

theorem ofLine_of_isDirectiveLine {line : List Char} (h : isDirectiveLine line = true) :
    ∃ r, line.dropWhile isLinearBlank = '#' :: r ∧
      TidyLine.ofLine line =
        .directive ('#' :: collapseBlanks false (r.dropWhile isLinearBlank)) := by
  rw [isDirectiveLine, beq_iff_eq] at h
  cases hr : line.dropWhile isLinearBlank with
  | nil => rw [hr] at h; exact absurd h (by simp)
  | cons c r =>
    rw [hr, List.head?_cons, Option.some.injEq] at h
    subst h
    refine ⟨r, rfl, ?_⟩
    rw [TidyLine.ofLine, hr]
    rfl

theorem ofLine_of_not_isDirectiveLine {line : List Char} (h : isDirectiveLine line = false) :
    TidyLine.ofLine line =
      .code (spaced isLinearBlank needsSeparator none false (trim line)) := by
  rw [TidyLine.ofLine, dropSpaces_trim_collapseBlanks]
  split
  · rename_i r hr
    rw [isDirectiveLine, hr] at h
    exact absurd h (by simp)
  · rfl

/-- On a plain line trimming and collapsing are part of spacing out. -/
theorem PlainLine.ofLine_code {line : List Char} (hp : PlainLine line)
    (h : isDirectiveLine line = false) :
    TidyLine.ofLine line = .code (spaced isBlank needsSeparator none false line) := by
  have hp' : ∀ c ∈ trim line, isLinearBlank c = isBlank c :=
    fun c hc => (hp c (mem_of_mem_trimWith hc)).symm
  rw [ofLine_of_not_isDirectiveLine h, spaced_congr hp', trim, trimWith, spaced_trimEndWith,
    spaced_none_dropWhile]

/-- Code does not begin with `#` where no other blank can stand before it. -/
theorem PlainLine.head?_visible {line : List Char} (hp : PlainLine line)
    (h : isDirectiveLine line = false) : (visible line).head? ≠ some '#' := by
  induction line with
  | nil => simp [visible]
  | cons c r ih =>
    have hr : PlainLine r := fun d hd => hp d (List.mem_cons_of_mem _ hd)
    have hc : isBlank c = isLinearBlank c := hp c List.mem_cons_self
    by_cases hb : isLinearBlank c = true
    · rw [isDirectiveLine_cons_linear hb] at h
      rw [visible_cons_of_blank (hc.trans hb)]
      exact ih hr h
    · rw [Bool.not_eq_true] at hb
      rw [isDirectiveLine_cons hb] at h
      rw [visible_cons (hc.trans hb), List.head?_cons]
      simpa using h

/-! ## All lines -/

/-- What `joinLines` makes of a block. -/
def Block.tidy : Block → Option TidyLine
  | .directive line => some (TidyLine.ofLine line)
  | .code lines =>
    if (joinLf lines).all isBlank then none
    else some (.code (spaced isBlank needsSeparator none false (joinLf lines)))

theorem tidy_code_cons {line : List Char} {lines : List (List Char)} (hne : lines ≠ []) :
    (Block.code (line :: lines)).tidy =
      if line.all isBlank then (Block.code lines).tidy
      else some (.code (joinCode (spaced isBlank needsSeparator none false line)
        (spaced isBlank needsSeparator none false (joinLf lines)))) := by
  have hlf : isBlank '\n' = true := isBlank_lf
  rw [Block.tidy, Block.tidy, joinLf_cons line hne, joinCode_spaced hlf]
  by_cases hl : line.all isBlank = true
  · have hnil : spaced isBlank needsSeparator none false line = [] :=
      spaced_none_eq_nil_iff.mpr (List.all_eq_true.mp hl)
    have hvis : (line.filter fun c => !isBlank c) = [] := by
      rw [List.filter_eq_nil_iff]
      intro c hc
      simp [List.all_eq_true.mp hl c hc]
    rw [if_pos hl, spaced_append_blank hlf, hnil, hvis, List.nil_append, List.getLast?_nil,
      Option.none_or, spaced_none_gap, List.all_append, hl, List.all_cons, hlf]
    rfl
  · rw [if_neg hl, if_neg]
    simp [hl]

/-- A blank line in front changes nothing. -/
theorem filterMap_tidy_consLine_blank {line : List Char} (hl : line.all isBlank = true)
    {bs : List Block} (h : Alternating bs) :
    (consLine line bs).filterMap Block.tidy = bs.filterMap Block.tidy := by
  have hone : (Block.code [line]).tidy = none := by
    rw [Block.tidy, joinLf_singleton, if_pos hl]
  cases bs with
  | nil => simp [consLine, hone]
  | cons b rest =>
    cases b with
    | directive l => simp [consLine, hone]
    | code lines =>
      rw [consLine, List.filterMap_cons, tidy_code_cons h.1, if_pos hl, List.filterMap_cons]

/-- In front of a directive, or of nothing, a line of code stays by itself. -/
theorem consCode_filterMap_tidy {bs : List Block} (hsorted : ∀ b ∈ bs, b.Sorted)
    (hhead : ∀ next, bs.head? ≠ some (.code next)) (text : List Char) :
    consCode text (bs.filterMap Block.tidy) = .code text :: bs.filterMap Block.tidy := by
  cases bs with
  | nil => rfl
  | cons b rest =>
    cases b with
    | code next => exact absurd rfl (hhead next)
    | directive l =>
      obtain ⟨r, -, hr⟩ := ofLine_of_isDirectiveLine (hsorted (.directive l) List.mem_cons_self)
      rw [List.filterMap_cons, Block.tidy, hr]
      rfl

/-- A line of code in front is joined to the code that follows. -/
theorem filterMap_tidy_consLine {line : List Char} (hl : ¬ line.all isBlank = true)
    {bs : List Block} (hbs : Alternating bs) (hsorted : ∀ b ∈ bs, b.Sorted) :
    (consLine line bs).filterMap Block.tidy =
      consCode (spaced isBlank needsSeparator none false line) (bs.filterMap Block.tidy) := by
  have hone : (Block.code [line]).tidy =
      some (.code (spaced isBlank needsSeparator none false line)) := by
    rw [Block.tidy, joinLf_singleton, if_neg hl]
  cases bs with
  | nil => simp [consLine, hone, consCode]
  | cons b rest =>
    cases b with
    | directive l =>
      rw [consCode_filterMap_tidy hsorted (by simp), show consLine line (.directive l :: rest) =
        .code [line] :: .directive l :: rest from rfl, List.filterMap_cons, hone]
    | code lines =>
      rw [consLine, List.filterMap_cons, tidy_code_cons hbs.1, if_neg hl, List.filterMap_cons]
      have hrest := consCode_filterMap_tidy (fun b hb => hsorted b (List.mem_cons_of_mem _ hb))
        hbs.2.1 (spaced isBlank needsSeparator none false line)
      by_cases hb : (joinLf lines).all isBlank = true
      · have hnil : spaced isBlank needsSeparator none false (joinLf lines) = [] :=
          spaced_none_eq_nil_iff.mpr (List.all_eq_true.mp hb)
        rw [Block.tidy, if_pos hb, hnil]
        simp only [hrest]
        simp [joinCode]
      · rw [Block.tidy, if_neg hb]
        rfl

/-- The tidied lines, joined, are the blocks. -/
theorem joinLines_settleLines {lines : List (List Char)} (hp : ∀ line ∈ lines, PlainLine line)
    (inCode : Bool) :
    joinLines (settleLines inCode (lines.map TidyLine.ofLine)) =
      (blocks lines).filterMap Block.tidy := by
  induction lines generalizing inCode with
  | nil => rfl
  | cons line rest ih =>
    have hline : PlainLine line := hp line List.mem_cons_self
    have hrest := ih fun l hl => hp l (List.mem_cons_of_mem _ hl)
    rw [List.map_cons, blocks]
    by_cases hd : isDirectiveLine line = true
    · obtain ⟨r, -, hr⟩ := ofLine_of_isDirectiveLine hd
      rw [if_pos hd, List.filterMap_cons, Block.tidy, hr, settleLines, joinLines, hrest]
    · rw [if_neg hd]
      rw [Bool.not_eq_true] at hd
      rw [hline.ofLine_code hd]
      by_cases hl : line.all isBlank = true
      · rw [spaced_none_eq_nil_iff.mpr (List.all_eq_true.mp hl), settleLines, hrest,
          filterMap_tidy_consLine_blank hl (alternating_blocks rest)]
      · rw [filterMap_tidy_consLine hl (alternating_blocks rest) fun b => sorted_of_mem_blocks]
        cases hs : spaced isBlank needsSeparator none false line with
        | nil =>
          rw [spaced_none_eq_nil_iff] at hs
          exact absurd (List.all_eq_true.mpr hs) hl
        | cons c text =>
          -- Plain code does not begin with `#`, so none of it is settled as a directive.
          have hc : c ≠ '#' := by
            have := hline.head?_visible hd
            rw [visible, ← @head?_spaced isBlank needsSeparator, hs] at this
            simpa using this
          rw [settleLines, if_neg (by simp [hc]), joinLines, hrest]

/-! ## What is written -/

/-- The lines of a text, tidied and joined. -/
def tidyLines (s : List Char) : List TidyLine :=
  joinLines (settleLines false ((splitLf s).map TidyLine.ofLine))

/-- A line as it is written. -/
def TidyLine.written (line : TidyLine) : List Char := trimWith (· == ' ') line.text

theorem head?_spaced_visible {blank : Char → Bool} {keep : Char → Char → Bool} {s : List Char}
    {c : Char} (h : (spaced blank keep none false s).head? = some c) : blank c = false := by
  rw [head?_spaced] at h
  simpa using (List.mem_filter.mp (List.mem_of_mem_head? h)).2

theorem getLast?_spaced_visible {blank : Char → Bool} {keep : Char → Char → Bool} {s : List Char}
    {c : Char} (h : (spaced blank keep none false s).getLast? = some c) : blank c = false := by
  rw [getLast?_spaced] at h
  simpa using (List.mem_filter.mp (List.mem_of_getLast? h)).2

/-- Text that is spaced out has nothing to trim. -/
theorem trimWith_spaced {blank : Char → Bool} {keep : Char → Char → Bool} (hsp : blank ' ' = true)
    (s : List Char) :
    trimWith (· == ' ') (spaced blank keep none false s) = spaced blank keep none false s := by
  have hne : ∀ c, blank c = false → (c == ' ') = false := by
    intro c hc
    by_contra h
    rw [Bool.not_eq_false, beq_iff_eq] at h
    subst h
    exact absurd hsp (by simp [hc])
  exact trimWith_eq_self (fun c h => hne c (head?_spaced_visible h))
    (fun c h => hne c (getLast?_spaced_visible h))

theorem trimWith_directive (s : List Char) :
    trimWith (· == ' ') ('#' :: collapseBlanks false (s.dropWhile isLinearBlank)) =
      '#' :: spaced isLinearBlank (fun _ _ => true) none false s := by
  rw [trimWith, List.dropWhile_cons_of_neg (by simp), trimEndWith_cons, if_neg (by simp),
    (trimEndWith_collapseBlanks '#' _).1, spaced_some_dropWhile]

/-- The form of a block is its tidied line, trimmed. -/
theorem Block.Sorted.form_eq {b : Block} (h : b.Sorted) :
    b.form = b.tidy.map TidyLine.written := by
  cases b with
  | directive line =>
    obtain ⟨r, hr, hof⟩ := ofLine_of_isDirectiveLine h
    rw [Block.form, Block.tidy, hof, hr, Option.map_some, TidyLine.written, TidyLine.text,
      trimWith_directive, List.tail_cons]
  | code lines =>
    rw [Block.form, Block.tidy]
    split
    · rfl
    · rw [Option.map_some, TidyLine.written, TidyLine.text, trimWith_spaced isBlank_space]

theorem Block.form_ne_nil {b : Block} {line : List Char} (h : b.form = some line) : line ≠ [] := by
  cases b with
  | directive l =>
    rw [Block.form, Option.some.injEq] at h
    simp [← h]
  | code lines =>
    rw [Block.form] at h
    split at h
    · exact absurd h (by simp)
    · rename_i hb
      rw [Option.some.injEq] at h
      rw [← h]
      exact fun hnil => hb (List.all_eq_true.mpr (spaced_none_eq_nil_iff.mp hnil))

/-- The tidied lines are written as the blocks ask. -/
theorem map_written_tidyLines {s : List Char} (h : PlainBlanks s) :
    (tidyLines s).map TidyLine.written = (blocks (splitLf s)).filterMap Block.form := by
  rw [tidyLines, joinLines_settleLines fun line hl => h.plainLine hl, List.map_filterMap]
  exact (List.filterMap_congr fun b hb => (sorted_of_mem_blocks hb).form_eq).symm

/-- **The release form of a text is its blocks, each in its form.** -/
theorem compress_eq_blocks {s : List Char} (h : PlainBlanks s) :
    compress s = joinLf ((blocks (splitLf s)).filterMap Block.form) := by
  have hwritten : compress s = joinLf (((tidyLines s).map TidyLine.written).filter (· ≠ [])) := rfl
  rw [hwritten, map_written_tidyLines h, List.filter_eq_self.mpr]
  intro line hline
  obtain ⟨b, -, hb⟩ := List.mem_filterMap.mp hline
  exact decide_eq_true (Block.form_ne_nil hb)

/-! ## What is visible in it -/

theorem visible_append (s t : List Char) : visible (s ++ t) = visible s ++ visible t :=
  List.filter_append ..

theorem visible_joinLf (lines : List (List Char)) :
    visible (joinLf lines) = lines.flatMap visible := by
  induction lines with
  | nil => rfl
  | cons line rest ih =>
    by_cases hr : rest = []
    · subst hr
      simp
    · rw [joinLf_cons line hr, visible_append, visible_cons_of_blank isBlank_lf, ih,
        List.flatMap_cons]

theorem visible_dropWhile (s : List Char) : visible (s.dropWhile isLinearBlank) = visible s := by
  induction s with
  | nil => rfl
  | cons c r ih =>
    by_cases hc : isLinearBlank c = true
    · rw [List.dropWhile_cons_of_pos hc, ih, visible_cons_of_blank (isBlank_of_isLinearBlank hc)]
    · rw [List.dropWhile_cons_of_neg hc]

/-- A block is written with the visible characters of its lines. -/
theorem visible_form {b : Block} (h : b.Sorted) (hp : ∀ line ∈ b.lines, PlainLine line) :
    visible (b.form.getD []) = b.lines.flatMap visible := by
  cases b with
  | directive line =>
    have hline : PlainLine line := hp line List.mem_cons_self
    obtain ⟨r, hr, -⟩ := ofLine_of_isDirectiveLine h
    have hrest : ∀ c ∈ r, isLinearBlank c = isBlank c := by
      intro c hc
      refine (hline c ?_).symm
      have : c ∈ line.dropWhile isLinearBlank := by rw [hr]; exact List.mem_cons_of_mem _ hc
      exact (List.dropWhile_sublist _).subset this
    have hwritten : visible (spaced isLinearBlank (fun _ _ => true) none false r) = visible r := by
      rw [spaced_congr hrest]
      exact filter_spaced isBlank_space ..
    rw [Block.form, Option.getD_some, hr, List.tail_cons, Block.lines, List.flatMap_singleton,
      ← visible_dropWhile line, hr, visible_cons isBlank_hash, visible_cons isBlank_hash, hwritten]
  | code lines =>
    rw [Block.form, Block.lines, ← visible_joinLf]
    split
    · rename_i hb
      refine (List.filter_eq_nil_iff.mpr fun c hc => ?_).symm
      simp [List.all_eq_true.mp hb c hc]
    · exact filter_spaced isBlank_space ..

theorem visible_joinLf_filterMap_form {bs : List Block} (h : ∀ b ∈ bs, b.Sorted)
    (hp : ∀ line ∈ bs.flatMap Block.lines, PlainLine line) :
    visible (joinLf (bs.filterMap Block.form)) = visible (joinLf (bs.flatMap Block.lines)) := by
  rw [visible_joinLf, visible_joinLf]
  induction bs with
  | nil => rfl
  | cons b bs ih =>
    have hb := visible_form (h b List.mem_cons_self)
      fun line hl => hp line (List.mem_flatMap.mpr ⟨b, List.mem_cons_self, hl⟩)
    have hrest := ih (fun b' hb' => h b' (List.mem_cons_of_mem _ hb')) fun line hl => by
      refine hp line ?_
      rw [List.flatMap_cons]
      exact List.mem_append_right _ hl
    rw [List.flatMap_cons, List.flatMap_append, ← hb, ← hrest, List.filterMap_cons]
    cases b.form with
    | none => rfl
    | some line => rfl

/-- What is visible of a text without its comments was kept by the scanner. -/
theorem visible_stripComments (v : Variant) (s : List Char) :
    visible (stripComments v s) =
      visible ((pieces v .blank s).flatMap fun
        | .kept c => [c]
        | .comment _ => []) := by
  rw [stripComments]
  induction pieces v .blank s with
  | nil => rfl
  | cons p ps ih =>
    rw [List.flatMap_cons, List.flatMap_cons, visible_append, visible_append, ih]
    cases p with
    | kept c => rfl
    | comment text =>
      congr 1
      refine List.filter_eq_nil_iff.mpr fun c hc => ?_
      cases v with
      | release => simp [List.mem_singleton.mp hc, isBlank]
      | debug =>
        obtain ⟨d, -, rfl⟩ := List.mem_map.mp hc
        by_cases hlf : d = '\n' <;> simp [hlf, isBlank]

/-! ## The release variant -/

theorem plainBlanks_normalizeEnds {source : List Char}
    (h : ∀ c ∈ source, isBlank c = true → isLinearBlank c = true ∨ c = '\r' ∨ c = '\n') :
    PlainBlanks (normalizeEnds source) := by
  intro c hc hb
  rcases mem_of_mem_normalizeEnds hc with hs | rfl
  · rcases h c hs hb with hlin | rfl | rfl
    · exact Or.inl hlin
    · exact absurd hc (cr_notMem_normalizeEnds source)
    · exact Or.inr rfl
  · exact Or.inr rfl

/-- Taking out the comments of a text with plain blanks leaves one. -/
theorem PlainBlanks.stripComments {s : List Char} (h : PlainBlanks s) (v : Variant) :
    PlainBlanks (stripComments v s) := by
  intro c hc hb
  rcases mem_of_mem_stripComments hc with hs | rfl
  · exact h c hs hb
  · exact Or.inl isLinearBlank_space

/-- **Minifying for release gives the space-minimal form.** With `s` the source without its
comments: the lines of `s` are cut into directives and maximal runs of other lines; the embedded
text is the forms of these blocks in order, one to a line; and each block is written with exactly
its visible characters, so that none is lost or moved and no code passes a directive. -/
theorem release_is_space_minimal (source : List Char)
    (h : ∀ c ∈ source, isBlank c = true → isLinearBlank c = true ∨ c = '\r' ∨ c = '\n') :
    let s := stripComments .release (normalizeEnds source)
    minify .release source = joinLf ((blocks (splitLf s)).filterMap Block.form) ∧
    (blocks (splitLf s)).flatMap Block.lines = splitLf s ∧
    Alternating (blocks (splitLf s)) ∧
    (∀ b ∈ blocks (splitLf s), b.Sorted ∧ visible (b.form.getD []) = b.lines.flatMap visible) ∧
    visible (minify .release source) = visible s ∧
    visible s = visible ((pieces .release .blank (normalizeEnds source)).flatMap fun
      | .kept c => [c]
      | .comment _ => []) := by
  intro s
  have hplain : PlainBlanks s := (plainBlanks_normalizeEnds h).stripComments .release
  have hmin : minify .release source = joinLf ((blocks (splitLf s)).filterMap Block.form) :=
    compress_eq_blocks hplain
  have hlines := flatMap_lines_blocks (splitLf s)
  have hline : ∀ line ∈ (blocks (splitLf s)).flatMap Block.lines, PlainLine line := by
    rw [hlines]
    exact fun line hl => hplain.plainLine hl
  refine ⟨hmin, hlines, alternating_blocks _, ?_, ?_, visible_stripComments ..⟩
  · intro b hb
    have hs := sorted_of_mem_blocks hb
    exact ⟨hs, visible_form hs fun line hl => hline line (List.mem_flatMap.mpr ⟨b, hb, hl⟩)⟩
  · rw [hmin, visible_joinLf_filterMap_form (fun b => sorted_of_mem_blocks) hline, hlines,
      joinLf_splitLf]

/-- Tabs, both line ends, two operators that stay apart, and a directive. -/
theorem release_is_space_minimal_mixed :
    (∀ c ∈ "a + +\tb // c\r\n # define X  1\n\nd ;".toList,
      isBlank c = true → isLinearBlank c = true ∨ c = '\r' ∨ c = '\n') ∧
    minify .release "a + +\tb // c\r\n # define X  1\n\nd ;".toList =
      "a+ +b\n#define X 1\nd;".toList := by
  have hplain : ∀ c ∈ "a + +\tb // c\r\n # define X  1\n\nd ;".toList,
      isBlank c = true → isLinearBlank c = true ∨ c = '\r' ∨ c = '\n' := by
    simp [isBlank, isLinearBlank]
  have hstrip : stripComments .release
      (normalizeEnds "a + +\tb // c\r\n # define X  1\n\nd ;".toList) =
      "a + +\tb  \n # define X  1\n\nd ;".toList := by
    simp [stripComments, normalizeEnds, pieces, LineKind.push, LineKind.pushPiece, Piece.written,
      isLinearBlank]
  refine ⟨hplain, ?_⟩
  rw [(release_is_space_minimal _ hplain).1, hstrip]
  decide

end AssetPack.Glsl
