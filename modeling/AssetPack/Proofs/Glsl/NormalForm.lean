import AssetPack.Proofs.Glsl.SpaceMinimal

/-!
# What the release variant writes, it writes again

`compress` applied to its own output changes nothing, for any blanks in the text. The lines it
writes are described by two predicates: code is spaced out and has no blank at either end
(`IsCodeText`), a directive is `#` and a rest with single spaces (`IsDirectiveText`). `Settled` says
the same of the list of lines that `joinLines` returns, and that no line of code follows another.

The lines of `compress s` are read from the text without their marks, so what was a directive has
to be found as one again and code must not be taken for one. Code that begins with `#` is where
that could fail. It arises when a blank that is not linear stands in front of the `#`, and it is
the reason `settleLines` looks at the first character once more; behind other code it is left,
and then `joinLines` moves it away from the front of its line.
-/

set_option autoImplicit false

namespace AssetPack.Glsl

open AssetPack.Text

/-- A text on one line. -/
def EndFree (text : List Char) : Prop := '\n' ∉ text ∧ '\r' ∉ text

/-- Code as the release variant writes it; it may be empty. -/
structure IsCodeText (text : List Char) : Prop where
  ends : EndFree text
  head : ∀ c, text.head? = some c → isBlank c = false
  last : ∀ c, text.getLast? = some c → isBlank c = false
  fixed : spaced isLinearBlank needsSeparator none false text = text

/-- A directive as the release variant writes it. -/
def IsDirectiveText (text : List Char) : Prop :=
  ∃ rest, text = '#' :: rest ∧ EndFree rest ∧
    spaced isLinearBlank (fun _ _ => true) none false rest = rest

/-- The line is written in the form that its kind has. -/
def TidyLine.Tidy : TidyLine → Prop
  | .directive text => IsDirectiveText (TidyLine.directive text).written
  | .code text => IsCodeText text

/-- Lines in their final form. `inCode` says that the line before was code, without which none
begins with `#`. -/
def Settled (inCode : Bool) : List TidyLine → Prop
  | [] => True
  | .directive text :: rest =>
    IsDirectiveText (TidyLine.directive text).written ∧ Settled false rest
  | .code text :: rest =>
    text ≠ [] ∧ IsCodeText text ∧ (inCode = false → text.head? ≠ some '#') ∧
      (∀ next, rest.head? ≠ some (.code next)) ∧ Settled true rest

/-! ## One line -/

theorem EndFree.mono {s t : List Char} (h : EndFree s) (ht : ∀ c ∈ t, c = ' ' ∨ c ∈ s) :
    EndFree t := by
  refine ⟨fun hc => ?_, fun hc => ?_⟩
  · exact h.1 ((ht _ hc).resolve_left (by simp))
  · exact h.2 ((ht _ hc).resolve_left (by simp))

theorem EndFree.spaced {blank : Char → Bool} {keep : Char → Char → Bool} {s : List Char}
    (h : EndFree s) : EndFree (spaced blank keep none false s) :=
  h.mono fun _ => mem_of_mem_spaced

/-- Any line of code is written as such. -/
theorem isCodeText_spaced_trim {line : List Char} (h : EndFree line) :
    IsCodeText (spaced isLinearBlank needsSeparator none false (trim line)) := by
  refine ⟨?_, ?_, ?_, spaced_spaced isLinearBlank_space (fun _ _ hk => hk) none false _⟩
  · have htrim : EndFree (trim line) := h.mono fun c hc => Or.inr (mem_of_mem_trimWith hc)
    exact htrim.spaced
  · intro c hc
    rw [head?_spaced] at hc
    cases hs : trim line with
    | nil =>
      rw [hs] at hc
      exact absurd hc (by simp)
    | cons d s =>
      have hd : isBlank d = false := head?_trimWith (s := line) (congrArg List.head? hs)
      rw [hs, List.filter_cons_of_pos (by simp [not_isLinearBlank hd])] at hc
      rwa [← Option.some.inj hc]
  · intro c hc
    rw [getLast?_spaced] at hc
    rcases List.eq_nil_or_concat (trim line) with hs | ⟨s, d, hs⟩
    · rw [hs] at hc
      exact absurd hc (by simp)
    · have hd : isBlank d = false :=
        getLast?_trimWith (s := line) ((congrArg List.getLast? hs).trans (by simp))
      rw [hs, List.concat_eq_append, List.filter_append,
        List.filter_cons_of_pos (by simp [not_isLinearBlank hd]), List.filter_nil,
        List.getLast?_concat] at hc
      rwa [← Option.some.inj hc]

/-- Tidied lines are tidy. -/
theorem tidy_ofLine {line : List Char} (h : EndFree line) : (TidyLine.ofLine line).Tidy := by
  by_cases hd : isDirectiveLine line = true
  · obtain ⟨r, hr, hof⟩ := ofLine_of_isDirectiveLine hd
    have hrest : EndFree r := by
      refine h.mono fun c hc => Or.inr ((List.dropWhile_sublist isLinearBlank).subset ?_)
      rw [hr]
      exact List.mem_cons_of_mem _ hc
    rw [hof]
    exact ⟨_, trimWith_directive r, hrest.spaced,
      spaced_spaced isLinearBlank_space (fun _ _ hk => hk) none false _⟩
  · rw [Bool.not_eq_true] at hd
    rw [ofLine_of_not_isDirectiveLine hd]
    exact isCodeText_spaced_trim h

theorem IsCodeText.written {text : List Char} (h : IsCodeText text) :
    (TidyLine.code text).written = text := by
  rw [TidyLine.written, TidyLine.text, ← h.fixed]
  exact trimWith_spaced isLinearBlank_space text

theorem not_needsSeparator_hash (c : Char) : needsSeparator '#' c = false := by
  have hword : isWordChar '#' = false := by decide
  have hdigit : '#'.isDigit = false := by decide
  simp [needsSeparator, joinsNumber, protectedPairs, hword, hdigit]

/-- Behind `#` no space is kept, so spaced out text behind it is spaced out by itself. -/
theorem spaced_of_spaced_hash {text : List Char}
    (h : spaced isLinearBlank needsSeparator (some '#') false text = text) :
    spaced isLinearBlank needsSeparator none false text = text := by
  cases text with
  | nil => rfl
  | cons d s =>
    by_cases hd : isLinearBlank d = true
    · -- What the gap leaves does not begin with the blank `d`.
      rw [spaced_blank hd, spaced_gap] at h
      cases hs : (spaced isLinearBlank needsSeparator none false s).head? with
      | none =>
        rw [hs] at h
        exact absurd h (by simp)
      | some n =>
        have hn : isLinearBlank n = false := head?_spaced_visible hs
        rw [hs] at h
        dsimp only at h
        rw [if_neg (by simp [not_needsSeparator_hash])] at h
        rw [h, List.head?_cons, Option.some.injEq] at hs
        exact absurd hd (by simp [hs, hn])
    · rw [Bool.not_eq_true] at hd
      rw [spaced_visible hd] at h ⊢
      exact h

/-- The rest of code that begins with `#` is that of a directive. -/
theorem IsCodeText.isDirectiveText {text : List Char} (h : IsCodeText ('#' :: text)) :
    IsDirectiveText (TidyLine.directive ('#' :: text)).written := by
  have hfixed := h.fixed
  rw [spaced_none_visible (not_isLinearBlank isBlank_hash), List.cons.injEq,
    and_iff_right rfl] at hfixed
  have hdirective := @spaced_spaced isLinearBlank needsSeparator isLinearBlank_space
    (fun _ _ => true) (fun _ _ _ => rfl) none false text
  rw [spaced_of_spaced_hash hfixed] at hdirective
  exact ⟨text, h.written, h.ends.mono fun c hc => Or.inr (List.mem_cons_of_mem _ hc), hdirective⟩

/-! ## Joined code -/

theorem joinCode_cases (s t : List Char) :
    joinCode s t = s ++ t ∨ (s ≠ [] ∧ t ≠ [] ∧ joinCode s t = s ++ ' ' :: t) := by
  unfold joinCode
  split
  · rename_i l r hl hr
    split
    · refine Or.inr ⟨?_, ?_, rfl⟩
      · rintro rfl
        exact absurd hl (by simp)
      · rintro rfl
        exact absurd hr (by simp)
    · exact Or.inl rfl
  · exact Or.inl rfl

theorem head?_joinCode {s : List Char} (hs : s ≠ []) (t : List Char) :
    (joinCode s t).head? = s.head? := by
  rcases joinCode_cases s t with h | ⟨-, -, h⟩ <;> rw [h, List.head?_append_of_ne_nil _ hs]

theorem getLast?_joinCode (s : List Char) {t : List Char} (ht : t ≠ []) :
    (joinCode s t).getLast? = t.getLast? := by
  rcases joinCode_cases s t with h | ⟨-, -, h⟩
  · rw [h, List.getLast?_append_of_ne_nil _ ht]
  · rw [h, List.getLast?_append_of_ne_nil _ (by simp), List.getLast?_cons]
    cases t with
    | nil => exact absurd rfl ht
    | cons c t => simp [List.getLast?_cons]

theorem IsCodeText.joinCode {s t : List Char} (hs : IsCodeText s) (ht : IsCodeText t)
    (hsne : s ≠ []) (htne : t ≠ []) : IsCodeText (joinCode s t) := by
  have hjoin : Glsl.joinCode s t =
      spaced isLinearBlank needsSeparator none false (s ++ ' ' :: t) := by
    have := joinCode_spaced isLinearBlank_space s t
    rwa [hs.fixed, ht.fixed] at this
  refine ⟨?_, ?_, ?_, ?_⟩
  · have happend : EndFree (s ++ ' ' :: t) :=
      ⟨by simp [hs.ends.1, ht.ends.1], by simp [hs.ends.2, ht.ends.2]⟩
    rw [hjoin]
    exact happend.spaced
  · rw [head?_joinCode hsne]
    exact hs.head
  · rw [getLast?_joinCode _ htne]
    exact ht.last
  · rw [hjoin]
    exact spaced_spaced isLinearBlank_space (fun _ _ hk => hk) none false _

/-! ## All lines -/

/-- Code in front of settled lines leaves them settled. -/
theorem settled_consCode {inCode : Bool} {text : List Char} {lines : List TidyLine}
    (hne : text ≠ []) (htext : IsCodeText text) (hhash : inCode = false → text.head? ≠ some '#')
    (h : Settled true lines) : Settled inCode (consCode text lines) := by
  cases lines with
  | nil => exact ⟨hne, htext, hhash, by simp, trivial⟩
  | cons line rest =>
    cases line with
    | directive next => exact ⟨hne, htext, hhash, by simp, h⟩
    | code next =>
      obtain ⟨hnne, hnext, -, halt, hrest⟩ := h
      have hjoin : joinCode text next ≠ [] := by
        rcases joinCode_cases text next with hj | ⟨-, -, hj⟩ <;> simp [hj, hne]
      refine ⟨hjoin, htext.joinCode hnext hne hnne, ?_, halt, hrest⟩
      rw [head?_joinCode hne]
      exact hhash

/-- What `joinLines` returns is settled. -/
theorem settled_joinLines {lines : List TidyLine} (h : ∀ line ∈ lines, line.Tidy) (inCode : Bool) :
    Settled inCode (joinLines (settleLines inCode lines)) := by
  induction lines generalizing inCode with
  | nil => trivial
  | cons line rest ih =>
    have hline : line.Tidy := h line List.mem_cons_self
    have hrest := ih fun l hl => h l (List.mem_cons_of_mem _ hl)
    cases line with
    | directive text => exact ⟨hline, hrest false⟩
    | code text =>
      cases text with
      | nil => exact hrest inCode
      | cons c text =>
        rw [settleLines]
        split
        · rename_i hc
          rw [Bool.and_eq_true, decide_eq_true_eq] at hc
          obtain ⟨rfl, -⟩ := hc
          exact ⟨IsCodeText.isDirectiveText hline, hrest false⟩
        · rename_i hc
          -- A `#` that is left here follows other code, and `inCode` says so.
          refine settled_consCode (by simp) hline ?_ (hrest true)
          rintro rfl hhash
          exact hc (by simpa using hhash)

/-! ## Reading what was written -/

/-- A directive is found again. -/
theorem IsDirectiveText.ofLine {text : List Char} (h : IsDirectiveText text) :
    ∃ text', TidyLine.ofLine text = .directive text' ∧
      (TidyLine.directive text').written = text := by
  obtain ⟨rest, rfl, -, hfixed⟩ := h
  refine ⟨'#' :: collapseBlanks false (rest.dropWhile isLinearBlank), rfl, ?_⟩
  rw [TidyLine.written, TidyLine.text, trimWith_directive, hfixed]

/-- Code is code again if it does not begin with `#`. -/
theorem IsCodeText.ofLine {text : List Char} (h : IsCodeText text)
    (hhash : text.head? ≠ some '#') : TidyLine.ofLine text = .code text := by
  have hnot : isDirectiveLine text = false := by
    cases text with
    | nil => rfl
    | cons c text =>
      rw [isDirectiveLine_cons (not_isLinearBlank (h.head c rfl))]
      simpa using hhash
  rw [ofLine_of_not_isDirectiveLine hnot, trim, trimWith_eq_self h.head h.last, h.fixed]

theorem consCode_of_head? {text : List Char} {lines : List TidyLine}
    (h : ∀ next, lines.head? ≠ some (.code next)) : consCode text lines = .code text :: lines := by
  cases lines with
  | nil => rfl
  | cons line rest =>
    cases line with
    | directive next => rfl
    | code next => exact absurd rfl (h next)

/-- Where no code comes first, none does when the lines are read again. -/
theorem head?_joinLines_ofLine_written {lines : List TidyLine} (h : Settled true lines)
    (hcode : ∀ next, lines.head? ≠ some (.code next)) (next : List Char) :
    (joinLines (settleLines true ((lines.map TidyLine.written).map TidyLine.ofLine))).head? ≠
      some (.code next) := by
  cases lines with
  | nil => simp [settleLines, joinLines]
  | cons line rest =>
    cases line with
    | code text => exact absurd rfl (hcode text)
    | directive text =>
      obtain ⟨text', hof, -⟩ := h.1.ofLine
      rw [List.map_cons, List.map_cons, hof, settleLines, joinLines]
      simp

/-- Settled lines, written and read again, are written as before. -/
theorem joinLines_ofLine_written {inCode : Bool} {lines : List TidyLine} (h : Settled inCode lines)
    (hcode : inCode = true → ∀ next, lines.head? ≠ some (.code next)) :
    (joinLines (settleLines inCode ((lines.map TidyLine.written).map TidyLine.ofLine))).map
      TidyLine.written = lines.map TidyLine.written := by
  induction lines generalizing inCode with
  | nil => rfl
  | cons line rest ih =>
    rw [List.map_cons, List.map_cons]
    cases line with
    | directive text =>
      obtain ⟨hdir, hrest⟩ := h
      obtain ⟨text', hof, hwritten⟩ := hdir.ofLine
      rw [hof, settleLines, joinLines, List.map_cons, hwritten, ih hrest (by simp)]
    | code text =>
      obtain ⟨hne, htext, hhash, halt, hrest⟩ := h
      have hin : inCode = false := by
        cases inCode with
        | false => rfl
        | true => exact absurd rfl (hcode rfl text)
      -- No line of code follows, so there is nothing to join.
      have hhead := head?_joinLines_ofLine_written hrest halt
      rw [htext.written, htext.ofLine (hhash hin)]
      cases text with
      | nil => exact absurd rfl hne
      | cons c text =>
        have hc : c ≠ '#' := fun hc => hhash hin (by rw [hc]; rfl)
        rw [settleLines, if_neg (by simp [hc]), joinLines, consCode_of_head? hhead, List.map_cons,
          ih hrest fun _ => halt, htext.written]

/-! ## The release form -/

/-- No line that is written is empty, and none has a line end. -/
theorem Settled.written {inCode : Bool} {lines : List TidyLine} (h : Settled inCode lines) :
    ∀ line ∈ lines, line.written ≠ [] ∧ EndFree line.written := by
  induction lines generalizing inCode with
  | nil => simp
  | cons line rest ih =>
    rw [List.forall_mem_cons]
    cases line with
    | directive text =>
      obtain ⟨⟨r, hr, hends, -⟩, hrest⟩ := h
      refine ⟨⟨by simp [hr], ?_⟩, ih hrest⟩
      rw [hr]
      exact ⟨by simp [hends.1], by simp [hends.2]⟩
    | code text =>
      obtain ⟨hne, htext, -, -, hrest⟩ := h
      rw [htext.written]
      exact ⟨⟨hne, htext.ends⟩, ih hrest⟩

theorem settled_tidyLines {s : List Char} (h : '\r' ∉ s) : Settled false (tidyLines s) := by
  refine settled_joinLines ?_ false
  intro line hline
  obtain ⟨l, hl, rfl⟩ := List.mem_map.mp hline
  exact tidy_ofLine ⟨lf_notMem_of_mem_splitLf hl, fun hc => h (mem_of_mem_splitLf hl hc)⟩

/-- Every line is written. -/
theorem compress_eq_joinLf {s : List Char} (h : '\r' ∉ s) :
    compress s = joinLf ((tidyLines s).map TidyLine.written) := by
  refine congrArg joinLf (List.filter_eq_self.mpr ?_)
  intro text htext
  obtain ⟨line, hline, rfl⟩ := List.mem_map.mp htext
  exact decide_eq_true ((settled_tidyLines h).written line hline).1

theorem cr_notMem_compress {s : List Char} (h : '\r' ∉ s) : '\r' ∉ compress s := by
  rw [compress_eq_joinLf h]
  intro hc
  rcases mem_joinLf hc with hlf | ⟨text, htext, hc⟩
  · exact absurd hlf (by simp)
  · obtain ⟨line, hline, rfl⟩ := List.mem_map.mp htext
    exact ((settled_tidyLines h).written line hline).2.2 hc

/-- **Compressing changes nothing in a text that is compressed.** -/
theorem compress_compress {s : List Char} (h : '\r' ∉ s) : compress (compress s) = compress s := by
  have hsettled := settled_tidyLines h
  rw [compress_eq_joinLf (cr_notMem_compress h), compress_eq_joinLf h, tidyLines]
  by_cases hnil : tidyLines s = []
  · rw [hnil]
    rfl
  · rw [splitLf_joinLf (by simpa using hnil), joinLines_ofLine_written hsettled (by simp)]
    intro text htext
    obtain ⟨line, hline, rfl⟩ := List.mem_map.mp htext
    exact (hsettled.written line hline).2.1

end AssetPack.Glsl
