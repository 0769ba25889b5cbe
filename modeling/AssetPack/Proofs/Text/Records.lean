import AssetPack.Proofs.Text.Lines

/-!
# The lines of a line-based file

`records` is defined on the pieces between line feeds, the last of which is read another way than
those before it. Said of texts this comes down to one equation, `records_append_lf`: a line feed
ends all that is in front of it, and what is behind it is read as a text of its own. What follows is
drawn from there, mostly for a text whose last line is taken apart from the ended lines in front of
it (`exists_lastLine`).
-/

set_option autoImplicit false

namespace AssetPack.Text

/-- Nothing, or lines that have all been ended: a text behind which a line begins. -/
def EndsLine (s : List Char) : Prop := s = [] ∨ s.getLast? = some '\n'

/-- Every line feed with a carriage return in front of it. -/
def crLf (s : List Char) : List Char := s.flatMap fun c => if c = '\n' then ['\r', '\n'] else [c]

/-! ## The carriage return of a line end -/

@[simp] theorem dropFinalCr_concat (line : List Char) : dropFinalCr (line ++ ['\r']) = line := by
  simp [dropFinalCr]

theorem dropFinalCr_eq_self {line : List Char} (h : line.getLast? ≠ some '\r') :
    dropFinalCr line = line := by
  unfold dropFinalCr
  split
  · rename_i r hr
    exact absurd (by rw [← List.head?_reverse, hr, List.head?_cons]) h
  · rfl

/-- A line has a carriage return to lose or stays as it is. -/
theorem dropFinalCr_cases (line : List Char) :
    dropFinalCr line = line ∨ line = dropFinalCr line ++ ['\r'] := by
  by_cases h : line.getLast? = some '\r'
  · obtain ⟨front, rfl⟩ := List.getLast?_eq_some_iff.mp h
    exact Or.inr (by rw [dropFinalCr_concat])
  · exact Or.inl (dropFinalCr_eq_self h)

/-! ## Lines behind lines -/

theorem recordsOfPieces_append (front : List (List Char)) {rest : List (List Char)}
    (h : rest ≠ []) :
    recordsOfPieces (front ++ rest) = front.map dropFinalCr ++ recordsOfPieces rest := by
  induction front with
  | nil => rfl
  | cons line front ih =>
    obtain ⟨next, more, hne⟩ := List.exists_cons_of_ne_nil
      (List.append_ne_nil_of_right_ne_nil front h)
    rw [List.cons_append, List.map_cons, List.cons_append, ← ih, hne]
    rfl

@[simp] theorem records_nil : records [] = [] := rfl

/-- What stands in front of a line feed are ended lines, and what stands behind it is read
afresh. -/
theorem records_append_lf (a b : List Char) :
    records (a ++ '\n' :: b) = (splitLf a).map dropFinalCr ++ records b := by
  rw [records, splitLf, split_append_sep, ← splitLf, ← splitLf,
    recordsOfPieces_append _ (splitLf_ne_nil b)]
  rfl

theorem records_append {a : List Char} (ha : EndsLine a) (b : List Char) :
    records (a ++ b) = records a ++ records b := by
  rcases ha with rfl | ha
  · rfl
  · obtain ⟨front, rfl⟩ := List.getLast?_eq_some_iff.mp ha
    rw [List.append_assoc, List.singleton_append, records_append_lf, records_append_lf,
      records_nil, List.append_nil]

theorem records_line {line : List Char} (h : '\n' ∉ line) (b : List Char) :
    records (line ++ '\n' :: b) = dropFinalCr line :: records b := by
  rw [records_append_lf, splitLf, split_of_notMem h]
  rfl

theorem records_of_notMem {line : List Char} (h : '\n' ∉ line) :
    records line = if line = [] then [] else [line] := by
  rw [records, splitLf, split_of_notMem h, recordsOfPieces]

theorem EndsLine.append_lf {s : List Char} (hs : EndsLine s) (line : List Char) :
    EndsLine (line ++ '\n' :: s) := by
  right
  rcases hs with rfl | hs
  · simp
  · rw [List.getLast?_append, List.getLast?_cons, hs]
    rfl

/-- A text is ended lines and a last line without an end, which may be empty. -/
theorem exists_lastLine (s : List Char) :
    ∃ front last, s = front ++ last ∧ EndsLine front ∧ '\n' ∉ last := by
  refine splitLf_induction
    (P := fun s _ => ∃ front last, s = front ++ last ∧ EndsLine front ∧ '\n' ∉ last) ?_ ?_ s
  · intro line h
    exact ⟨[], line, rfl, Or.inl rfl, h⟩
  · rintro line _ _ ⟨front, last, rfl, hfront, hlast⟩
    exact ⟨line ++ '\n' :: front, last, by simp, hfront.append_lf line, hlast⟩

/-! ## Line ends of two characters -/

/-- A line feed may have a carriage return in front of it, unless there is one that would then
belong to the line. -/
theorem records_cr_lf {a : List Char} (ha : a.getLast? ≠ some '\r') (b : List Char) :
    records (a ++ '\r' :: '\n' :: b) = records (a ++ '\n' :: b) := by
  obtain ⟨front, last, rfl, hfront, hlast⟩ := exists_lastLine a
  have hcr : last.getLast? ≠ some '\r' := fun h => ha (by rw [List.getLast?_append, h]; rfl)
  have hline : last ++ '\r' :: '\n' :: b = (last ++ ['\r']) ++ '\n' :: b := by simp
  rw [List.append_assoc, List.append_assoc, records_append hfront, records_append hfront, hline,
    records_line hlast, records_line (by simpa using hlast), dropFinalCr_concat,
    dropFinalCr_eq_self hcr]

theorem crLf_of_notMem {line : List Char} (h : '\n' ∉ line) : crLf line = line := by
  induction line with
  | nil => rfl
  | cons c line ih =>
    rw [List.mem_cons, not_or] at h
    rw [crLf, List.flatMap_cons, if_neg (Ne.symm h.1), ← crLf, ih h.2]
    rfl

/-- Line ends of one character read the same as line ends of two. -/
theorem records_crLf {s : List Char} (h : '\r' ∉ s) : records (crLf s) = records s := by
  revert h
  refine splitLf_induction (P := fun s _ => '\r' ∉ s → records (crLf s) = records s) ?_ ?_ s
  · intro line hline _
    rw [crLf_of_notMem hline]
  · intro line rest hline ih h
    have hcr : line.getLast? ≠ some '\r' := fun hl =>
      h (List.mem_append_left _ (List.mem_of_getLast? hl))
    have hrest : '\r' ∉ rest := fun hr => h (by simp [hr])
    have hcrLf : crLf (line ++ '\n' :: rest) = line ++ '\r' :: '\n' :: crLf rest := by
      rw [crLf, List.flatMap_append, List.flatMap_cons, ← crLf, ← crLf, crLf_of_notMem hline]
      rfl
    rw [hcrLf, records_cr_lf hcr, records_line hline, records_line hline, ih hrest]

end AssetPack.Text
