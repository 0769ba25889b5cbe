import AssetPack.Ignore.Rules
import AssetPack.Proofs.Job
import AssetPack.Proofs.Text.Records

/-!
# What an ignore file comes to

Lines are read on two forms. Whether a line is a pattern is seen on its trimmed form: it is none
just where it is *idle*, blank or a comment (`isPatternLine_eq_false_iff`). A pattern is compiled as
it stands, and a blank at its end may count there: a backslash in front keeps a space. The carriage
return of a line end is therefore no part of either, unless it stands behind such a space.

What lines compile to are their `readings`. A file is accepted just where its size and the number of
its patterns keep the limits, every reading is a pattern and all of them can be matched; its rules
are then these patterns (`parse_eq_ok_iff`). Everything that is said of accepted files is said of
their readings.
-/

set_option autoImplicit false

namespace AssetPack

open Text

namespace Text

theorem trimEndWith_concat {p : Char → Bool} {c : Char} (hc : p c = true) (s : List Char) :
    trimEndWith p (s ++ [c]) = trimEndWith p s := by
  simp [trimEndWith, hc]

theorem trimWith_concat {p : Char → Bool} {c : Char} (hc : p c = true) (s : List Char) :
    trimWith p (s ++ [c]) = trimWith p s := by
  rw [trimWith, trimWith, List.dropWhile_append]
  split
  · rename_i h
    rw [List.isEmpty_iff.mp h, List.dropWhile_cons_of_pos hc]
    rfl
  · exact trimEndWith_concat hc _

end Text

namespace IgnorePattern

/-- Whether a pattern speaks of a file: it is not for directories alone, and its glob fits. -/
def Applies (p : IgnorePattern) (name : List UInt8) : Prop :=
  p.directoriesOnly = false ∧ p.glob.fits name = true

instance (p : IgnorePattern) (name : List UInt8) : Decidable (p.Applies name) :=
  inferInstanceAs (Decidable (_ ∧ _))

theorem verdict?_eq_none_iff {p : IgnorePattern} {name : List UInt8} :
    p.verdict? name = none ↔ ¬p.Applies name := by
  simp [verdict?, Applies]

/-! ## Compiling -/

theorem trimLine_eq_trimEnd {line : List Char} (h : ¬['\\', ' '] <:+ line) :
    trimLine line = trimEnd line := by
  unfold trimLine
  split
  · rename_i r hr
    exact absurd ⟨r.reverse, by rw [← List.reverse_reverse line, hr]; simp⟩ h
  · rfl

/-- A carriage return at the end of a line is trimmed like any blank, and hides a space in front of
it that a backslash would keep. -/
theorem compile_concat_cr {line : List Char} (h : ¬['\\', ' '] <:+ line) :
    compile (line ++ ['\r']) = compile line := by
  have hcr : ¬['\\', ' '] <:+ line ++ ['\r'] := by
    rintro ⟨front, hfront⟩
    exact absurd (congrArg List.getLast? hfront) (by simp)
  have htrim : trimLine (line ++ ['\r']) = trimLine line := by
    rw [trimLine_eq_trimEnd hcr, trimLine_eq_trimEnd h]
    exact trimEndWith_concat (by decide) line
  rw [compile, compile, htrim]

end IgnorePattern

namespace IgnoreRules

/-! ## Idle lines -/

/-- A line that says nothing: blank, or a comment, whose first character that is no blank is a hash
sign. -/
inductive IsIdle : List Char → Prop
  | blank {line : List Char} (h : ∀ c ∈ line, isBlank c = true) : IsIdle line
  | comment {blanks : List Char} (h : ∀ c ∈ blanks, isBlank c = true) (text : List Char) :
    IsIdle (blanks ++ '#' :: text)

theorem isPatternLine_eq_false_iff {line : List Char} :
    isPatternLine line = false ↔ IsIdle line := by
  have hline := line.takeWhile_append_dropWhile (p := isBlank)
  have hblanks : ∀ c ∈ line.takeWhile isBlank, isBlank c = true := fun c => List.mem_takeWhile_imp
  unfold isPatternLine trim trimWith
  cases hrest : line.dropWhile isBlank with
  | nil =>
    have hidle : IsIdle line := .blank (List.dropWhile_eq_nil_iff.mp hrest)
    simpa [trimEndWith_nil] using hidle
  | cons c rest =>
    have hc : isBlank c = false := by
      simpa [hrest] using List.head?_dropWhile_not isBlank line
    simp only [trimEndWith_cons, hc, Bool.false_eq_true, and_false, if_false, bne_eq_false_iff_eq]
    constructor
    · rintro rfl
      rw [← hline, hrest]
      exact .comment hblanks rest
    · intro h
      cases h with
      | blank h => rw [List.dropWhile_eq_nil_iff.mpr h] at hrest; cases hrest
      | comment h text =>
        rw [List.dropWhile_append_of_pos h, List.dropWhile_cons_of_neg (by simp)] at hrest
        exact (List.cons.inj hrest).1.symm

theorem isPatternLine_concat_cr (line : List Char) :
    isPatternLine (line ++ ['\r']) = isPatternLine line := by
  rw [isPatternLine, isPatternLine, trim, trim, trimWith_concat (by decide)]

theorem IsIdle.dropFinalCr {line : List Char} (h : IsIdle line) : IsIdle (dropFinalCr line) := by
  rcases dropFinalCr_cases line with hline | hline
  · rwa [hline]
  · rw [← isPatternLine_eq_false_iff] at h ⊢
    rwa [hline, isPatternLine_concat_cr] at h

theorem isIdle_nil : IsIdle [] := .blank nofun

/-! ## Readings -/

/-- What the patterns among lines compile to. -/
def readings (lines : List (List Char)) : List (Except IgnorePatternError IgnorePattern) :=
  (lines.filter isPatternLine).map IgnorePattern.compile

@[simp] theorem readings_nil : readings [] = [] := rfl

theorem readings_append (a b : List (List Char)) :
    readings (a ++ b) = readings a ++ readings b := by
  rw [readings, List.filter_append, List.map_append]
  rfl

theorem readings_pattern {line : List Char} (h : isPatternLine line = true)
    (rest : List (List Char)) :
    readings (line :: rest) = IgnorePattern.compile line :: readings rest := by
  rw [readings, List.filter_cons_of_pos h, List.map_cons]
  rfl

theorem readings_idle {line : List Char} (h : IsIdle line) (rest : List (List Char)) :
    readings (line :: rest) = readings rest := by
  rw [readings, List.filter_cons_of_neg (by simp [isPatternLine_eq_false_iff.mpr h])]
  rfl

/-- A text of one line is read as that line, even if there is nothing in it. -/
theorem readings_records_of_notMem {line : List Char} (h : '\n' ∉ line) :
    readings (records line) = readings [line] := by
  rw [records_of_notMem h]
  split
  · rename_i hline
    rw [hline, readings_idle isIdle_nil]
  · rfl

/-- The carriage return of a line end is no part of what a line is read as, unless it hides a
space. -/
theorem readings_dropFinalCr {line : List Char} (h : ¬['\\', ' ', '\r'] <:+ line)
    (rest : List (List Char)) :
    readings (dropFinalCr line :: rest) = readings (line :: rest) := by
  rcases dropFinalCr_cases line with hline | hline
  · rw [hline]
  · have hspace : ¬['\\', ' '] <:+ dropFinalCr line := by
      rintro ⟨front, hfront⟩
      exact h ⟨front, by rw [hline, ← hfront]; simp⟩
    have hcompile := IgnorePattern.compile_concat_cr hspace
    have hpattern := isPatternLine_concat_cr (dropFinalCr line)
    rw [← hline] at hcompile hpattern
    cases hp : isPatternLine line with
    | true =>
      rw [readings_pattern hp, readings_pattern (hpattern ▸ hp), hcompile]
    | false =>
      rw [readings_idle (isPatternLine_eq_false_iff.mp hp),
        readings_idle (isPatternLine_eq_false_iff.mp (hpattern ▸ hp))]

/-! ## Accepted files -/

/-- A line that is a pattern takes one of those that are allowed, and has to compile. -/
theorem compileLines_pattern_eq_ok_iff {path : Path} {number count : Nat} {line : List Char}
    {rest : List (List Char)} {patterns : List IgnorePattern} (h : isPatternLine line = true) :
    compileLines path number count (line :: rest) = .ok patterns ↔
      count + 1 ≤ IgnoreError.maxPatterns ∧ ∃ p ps, IgnorePattern.compile line = .ok p ∧
        compileLines path (number + 1) (count + 1) rest = .ok ps ∧ p :: ps = patterns := by
  rw [compileLines, if_pos h]
  by_cases hfull : count + 1 > IgnoreError.maxPatterns
  · rw [if_pos hfull]
    exact iff_of_false nofun fun h => absurd h.1 (Nat.not_le_of_gt hfull)
  · rw [if_neg hfull, and_iff_right (Nat.le_of_not_lt hfull)]
    cases IgnorePattern.compile line with
    | error cause => simp
    | ok p => simp [Except.map_eq_ok]

/-- Lines are compiled just where each pattern among them is, and the limit on patterns is kept. -/
theorem compileLines_eq_ok_iff {path : Path} {number count : Nat} {lines : List (List Char)}
    {patterns : List IgnorePattern} (hcount : count ≤ IgnoreError.maxPatterns) :
    compileLines path number count lines = .ok patterns ↔
      count + patterns.length ≤ IgnoreError.maxPatterns ∧ readings lines = patterns.map .ok := by
  induction lines generalizing number count patterns with
  | nil =>
    rw [compileLines, readings_nil, Except.ok.injEq]
    cases patterns with
    | nil => simp [hcount]
    | cons p patterns => simp
  | cons line rest ih =>
    by_cases hline : isPatternLine line = true
    · rw [compileLines_pattern_eq_ok_iff hline, readings_pattern hline]
      constructor
      · rintro ⟨hroom, p, ps, hp, hps, rfl⟩
        obtain ⟨hle, hrest⟩ := (ih hroom).mp hps
        rw [hp, hrest, List.length_cons]
        exact ⟨by omega, rfl⟩
      · rintro ⟨hle, hread⟩
        cases patterns with
        | nil => cases hread
        | cons p ps =>
          obtain ⟨hp, hrest⟩ := List.cons.inj hread
          rw [List.length_cons] at hle
          have hroom : count + 1 ≤ IgnoreError.maxPatterns := by omega
          exact ⟨hroom, p, ps, hp, (ih hroom).mpr ⟨by omega, hrest⟩, rfl⟩
    · rw [compileLines, if_neg hline, ih hcount,
        readings_idle (isPatternLine_eq_false_iff.mp ((Bool.not_eq_true _).mp hline))]

theorem compile_eq_ok_iff {path : Path} {text : String} {patterns : List IgnorePattern} :
    compile path text = .ok patterns ↔
      text.utf8ByteSize ≤ IgnoreError.maxBytes ∧ patterns.length ≤ IgnoreError.maxPatterns ∧
        readings (records text.toList) = patterns.map .ok := by
  rw [compile]
  by_cases hsize : text.utf8ByteSize > IgnoreError.maxBytes
  · rw [if_pos hsize]
    exact iff_of_false nofun fun h => absurd h.1 (Nat.not_le_of_gt hsize)
  · rw [if_neg hsize, compileLines_eq_ok_iff (Nat.zero_le _), Nat.zero_add,
      and_iff_right (Nat.le_of_not_lt hsize)]

theorem ofPatterns_eq_ok_iff {root : Path} {patterns : List IgnorePattern} {rules : IgnoreRules} :
    ofPatterns root patterns = .ok rules ↔
      ExpressionFault.of? (patterns.map (·.glob)) = Option.none ∧ ⟨root, patterns⟩ = rules := by
  unfold ofPatterns
  split <;> rename_i hfault <;> simp [hfault]

/-- The files that are accepted, and the rules in them. -/
theorem parse_eq_ok_iff {root path : Path} {text : String} {rules : IgnoreRules} :
    parse root path text = .ok rules ↔
      rules.root = root ∧ text.utf8ByteSize ≤ IgnoreError.maxBytes ∧
        rules.patterns.length ≤ IgnoreError.maxPatterns ∧
        readings (records text.toList) = rules.patterns.map .ok ∧
        ExpressionFault.of? (rules.patterns.map (·.glob)) = Option.none := by
  simp only [parse, Except.bind_eq_ok, compile_eq_ok_iff, ofPatterns_eq_ok_iff]
  constructor
  · rintro ⟨_, ⟨hsize, hcount, hread⟩, hfault, rfl⟩
    exact ⟨rfl, hsize, hcount, hread, hfault⟩
  · rintro ⟨rfl, hsize, hcount, hread, hfault⟩
    exact ⟨rules.patterns, ⟨hsize, hcount, hread⟩, hfault, rfl⟩

end IgnoreRules

end AssetPack
