import AssetPack.Proofs.Ignore.Rules
import AssetPack.Proofs.Text.ByteOrder

/-!
# What is wrong with an ignore file

A file has one fault at most: its size, or else that of its earliest line that has one. A line can
be one pattern too many, and is then not looked at any further, or be a pattern that does not
compile (`Stops`). Whether it is the one or the other depends on the lines in front of it alone, so
the lines up to the fault are `Sound`, and a file whose lines all are has none.

Reading goes line by line with two counters, one of lines and one of patterns. Both are read off the
lines in front (`compileLines_eq_error_iff`), which is what carries the induction.
-/

set_option autoImplicit false

namespace AssetPack.IgnoreRules

open Text

/-! ## Patterns among lines -/

/-- The line is a pattern: there is something in it that is no blank, and this does not begin with a
hash sign. -/
def IsPattern (line : List Char) : Prop := trim line ≠ [] ∧ (trim line).head? ≠ some '#'

instance (line : List Char) : Decidable (IsPattern line) := inferInstanceAs (Decidable (_ ∧ _))

/-- The patterns among lines. -/
def patternLines (lines : List (List Char)) : List (List Char) := lines.filter (IsPattern ·)

/-- The patterns that lines compile to. -/
def compiled (lines : List (List Char)) : List IgnorePattern :=
  (patternLines lines).filterMap fun line => (IgnorePattern.compile line).toOption

theorem isPatternLine_iff {line : List Char} : isPatternLine line = true ↔ IsPattern line := by
  unfold isPatternLine IsPattern
  cases trim line <;> simp

theorem readings_eq_map (lines : List (List Char)) :
    readings lines = (patternLines lines).map IgnorePattern.compile := by
  have hsame : isPatternLine = fun line => decide (IsPattern line) := by
    funext line
    rw [Bool.eq_iff_iff, isPatternLine_iff, decide_eq_true_eq]
  rw [readings, patternLines, hsame]

theorem patternLines_append (a b : List (List Char)) :
    patternLines (a ++ b) = patternLines a ++ patternLines b :=
  List.filter_append _ _

theorem patternLines_concat {line : List Char} (h : IsPattern line) (lines : List (List Char)) :
    patternLines (lines ++ [line]) = patternLines lines ++ [line] := by
  rw [patternLines_append]
  congr 1
  exact List.filter_cons_of_pos (by simpa using h)

theorem patternLines_concat_of_not {line : List Char} (h : ¬IsPattern line)
    (lines : List (List Char)) : patternLines (lines ++ [line]) = patternLines lines := by
  have hnone : patternLines [line] = [] := List.filter_cons_of_neg (by simpa using h)
  rw [patternLines_append, hnone, List.append_nil]

/-! ## Faults -/

/-- What is wrong with a line, behind the lines `before`: it is one pattern too many, whatever it
looks like, or it is a pattern with a fault. -/
inductive Stops (path : Path) (before : List (List Char)) (line : List Char) : IgnoreError → Prop
  | tooMany (hline : IsPattern line) (hfull : (patternLines before).length = 1000) :
    Stops path before line (.tooManyPatterns path 1001)
  | fault (hline : IsPattern line) (hroom : (patternLines before).length < 1000)
      {cause : IgnorePatternError} (hfault : IgnorePattern.compile line = .error cause) :
    Stops path before line (.badPattern path (before.length + 1) line cause)

/-- Lines with nothing wrong: there are not too many patterns among them, and each compiles. -/
structure Sound (lines : List (List Char)) : Prop where
  room : (patternLines lines).length ≤ 1000
  compiles : ∀ line ∈ patternLines lines, ∃ p, IgnorePattern.compile line = .ok p

variable {path : Path} {before front lines : List (List Char)} {line : List Char}
  {e e' : IgnoreError}

theorem Stops.isPattern (h : Stops path before line e) : IsPattern line := by
  cases h <;> assumption

theorem Stops.unique (h : Stops path before line e) (h' : Stops path before line e') : e = e' := by
  cases h with
  | tooMany hline hfull =>
    cases h' with
    | tooMany => rfl
    | fault _ hroom => omega
  | fault hline hroom hfault =>
    cases h' with
    | tooMany _ hfull => omega
    | fault _ _ hfault' =>
      rw [hfault] at hfault'
      obtain rfl := Except.error.inj hfault'
      rfl

theorem sound_nil : Sound [] := ⟨Nat.zero_le _, nofun⟩

theorem Sound.of_append {back : List (List Char)} (h : Sound (front ++ back)) : Sound front := by
  obtain ⟨hroom, hcompiles⟩ := h
  rw [patternLines_append] at hroom hcompiles
  rw [List.length_append] at hroom
  exact ⟨by omega, fun line hline => hcompiles line (List.mem_append_left _ hline)⟩

/-- Sound lines go on being sound until one stops. -/
theorem sound_concat_iff (h : Sound before) :
    Sound (before ++ [line]) ↔ ∀ e, ¬Stops path before line e := by
  by_cases hline : IsPattern line
  · constructor
    · rintro ⟨hroom, hcompiles⟩ e hstops
      rw [patternLines_concat hline] at hroom hcompiles
      rw [List.length_append, List.length_singleton] at hroom
      obtain ⟨p, hp⟩ := hcompiles line (by simp)
      cases hstops with
      | tooMany _ hfull => omega
      | fault _ _ hfault => rw [hp] at hfault; cases hfault
    · intro hgoes
      have hroom : (patternLines before).length < 1000 := by
        refine Nat.lt_of_le_of_ne h.room fun hfull => ?_
        exact hgoes _ (.tooMany hline hfull)
      have hline' : ∃ p, IgnorePattern.compile line = .ok p := by
        cases hcompile : IgnorePattern.compile line with
        | ok p => exact ⟨p, rfl⟩
        | error cause => exact absurd (.fault hline hroom hcompile) (hgoes _)
      constructor
      · rw [patternLines_concat hline, List.length_append, List.length_singleton]
        exact hroom
      · rw [patternLines_concat hline, List.forall_mem_append, List.forall_mem_singleton]
        exact ⟨h.compiles, hline'⟩
  · refine iff_of_true ?_ fun e hstops => hline hstops.isPattern
    constructor
    · rw [patternLines_concat_of_not hline]
      exact h.room
    · rw [patternLines_concat_of_not hline]
      exact h.compiles

/-! ## Reading line by line -/

theorem compileLines_of_stops (h : Stops path front line e) (rest : List (List Char)) :
    compileLines path (front.length + 1) (patternLines front).length (line :: rest) = .error e := by
  rw [compileLines, if_pos (isPatternLine_iff.mpr h.isPattern)]
  cases h with
  | tooMany _ hfull =>
    rw [hfull]
    rfl
  | fault _ hroom hfault =>
    have hle : ¬(patternLines front).length + 1 > IgnoreError.maxPatterns := Nat.not_lt.mpr hroom
    rw [if_neg hle, hfault]

/-- A line that does not stop leaves what comes of the rest. -/
theorem compileLines_of_sound (h : Sound (front ++ [line])) (rest : List (List Char)) :
    compileLines path (front.length + 1) (patternLines front).length (line :: rest) = .error e ↔
      compileLines path ((front ++ [line]).length + 1) (patternLines (front ++ [line])).length
        rest = .error e := by
  rw [List.length_append, List.length_singleton, compileLines]
  by_cases hline : IsPattern line
  · obtain ⟨hroom, hcompiles⟩ := h
    rw [patternLines_concat hline] at hroom hcompiles ⊢
    rw [List.length_append, List.length_singleton] at hroom ⊢
    obtain ⟨p, hp⟩ := hcompiles line (by simp)
    have hle : ¬(patternLines front).length + 1 > IgnoreError.maxPatterns := Nat.not_lt.mpr hroom
    rw [if_pos (isPatternLine_iff.mpr hline), if_neg hle, hp]
    cases compileLines path (front.length + 1 + 1) ((patternLines front).length + 1) rest <;>
      simp [Except.map]
  · rw [if_neg (mt isPatternLine_iff.mp hline), patternLines_concat_of_not hline]

/-- Behind sound lines it is the earliest one that stops which gives the error. -/
theorem compileLines_eq_error_iff (hfront : Sound front) :
    compileLines path (front.length + 1) (patternLines front).length lines = .error e ↔
      ∃ before line after, lines = before ++ line :: after ∧ Sound (front ++ before) ∧
        Stops path (front ++ before) line e := by
  induction lines generalizing front with
  | nil =>
    rw [compileLines]
    constructor
    · intro h
      cases h
    · rintro ⟨before, line, after, hlines, -⟩
      simp at hlines
  | cons line rest ih =>
    by_cases hstops : ∃ e', Stops path front line e'
    · obtain ⟨e', hstops⟩ := hstops
      rw [compileLines_of_stops hstops, Except.error.injEq]
      constructor
      · rintro rfl
        exact ⟨[], line, rest, rfl, by simpa using hfront, by simpa using hstops⟩
      · rintro ⟨before, line', after, hlines, hsound, hstops'⟩
        cases before with
        | nil =>
          obtain ⟨rfl, rfl⟩ := List.cons.inj hlines
          rw [List.append_nil] at hstops'
          exact hstops.unique hstops'
        | cons first before =>
          obtain ⟨rfl, rfl⟩ := List.cons.inj hlines
          rw [List.append_cons] at hsound
          exact absurd hstops ((sound_concat_iff hfront).mp hsound.of_append e')
    · have hnone : ∀ e', ¬Stops path front line e' := fun e' h => hstops ⟨e', h⟩
      have hnext := (sound_concat_iff hfront).mpr hnone
      rw [compileLines_of_sound hnext, ih hnext]
      constructor
      · rintro ⟨before, line', after, rfl, hsound, hstops'⟩
        rw [← List.append_cons] at hsound hstops'
        exact ⟨line :: before, line', after, rfl, hsound, hstops'⟩
      · rintro ⟨before, line', after, hlines, hsound, hstops'⟩
        cases before with
        | nil =>
          obtain ⟨rfl, rfl⟩ := List.cons.inj hlines
          rw [List.append_nil] at hstops'
          exact absurd ⟨e, hstops'⟩ hstops
        | cons first before =>
          obtain ⟨rfl, rfl⟩ := List.cons.inj hlines
          rw [List.append_cons] at hsound hstops'
          exact ⟨before, line', after, rfl, hsound, hstops'⟩

/-! ## Files -/

/-- What lines are read as, if they are sound, are the patterns that they compile to. -/
theorem readings_eq_map_ok_iff {patterns : List IgnorePattern} :
    readings lines = patterns.map .ok ↔
      (∀ line ∈ patternLines lines, ∃ p, IgnorePattern.compile line = .ok p) ∧
        patterns = compiled lines := by
  rw [readings_eq_map, compiled]
  generalize patternLines lines = lines
  induction lines generalizing patterns with
  | nil => cases patterns <;> simp
  | cons line rest ih =>
    cases hcompile : IgnorePattern.compile line with
    | error cause => cases patterns <;> simp [hcompile]
    | ok p =>
      cases patterns with
      | nil => simp [hcompile, Except.toOption]
      | cons p' patterns =>
        simp only [List.map_cons, List.cons.injEq, hcompile, Except.ok.injEq, ih,
          List.forall_mem_cons, List.filterMap_cons, Except.toOption]
        constructor
        · rintro ⟨rfl, hrest, rfl⟩
          exact ⟨⟨⟨p, rfl⟩, hrest⟩, rfl, rfl⟩
        · rintro ⟨⟨-, hrest⟩, rfl, rfl⟩
          exact ⟨rfl, hrest, rfl⟩

theorem length_compiled (h : ∀ line ∈ patternLines lines, ∃ p, IgnorePattern.compile line = .ok p) :
    (compiled lines).length = (patternLines lines).length := by
  have hread := readings_eq_map_ok_iff.mpr ⟨h, rfl⟩
  simpa [readings_eq_map] using (congrArg List.length hread).symm

theorem compile_eq_error_iff {text : String} : compile path text = .error e ↔
    65536 < text.utf8ByteSize ∧ e = .tooLarge path text.utf8ByteSize ∨
      text.utf8ByteSize ≤ 65536 ∧ ∃ before line after,
        records text.toList = before ++ line :: after ∧ Sound before ∧
          Stops path before line e := by
  rw [compile]
  by_cases hsize : text.utf8ByteSize > IgnoreError.maxBytes
  · have hlarge : 65536 < text.utf8ByteSize := hsize
    rw [if_pos hsize, Except.error.injEq, and_iff_right hlarge]
    constructor
    · exact fun h => .inl h.symm
    · rintro (h | ⟨hsmall, -⟩)
      · exact h.symm
      · exact absurd hsmall (Nat.not_le_of_gt hsize)
  · have hsmall : text.utf8ByteSize ≤ 65536 := Nat.le_of_not_lt hsize
    rw [if_neg hsize, and_iff_right hsmall]
    refine (compileLines_eq_error_iff sound_nil).trans ?_
    exact ⟨.inr, fun h => h.resolve_left fun h => absurd h.1 (Nat.not_lt.mpr hsmall)⟩

theorem parse_eq_error_iff {root : Path} {text : String} : parse root path text = .error e ↔
    compile path text = .error e ∨ ∃ patterns, compile path text = .ok patterns ∧
      ∃ fault, ExpressionFault.of? (patterns.map (·.glob)) = some fault ∧
        e = .badExpression fault := by
  unfold parse
  cases compile path text with
  | error e' => simp
  | ok patterns =>
    unfold ofPatterns
    cases hfault : ExpressionFault.of? (patterns.map (·.glob)) <;>
      simp [hfault, eq_comm]

/-- The files that are read through, and the patterns in them, said of their lines. -/
theorem compile_eq_ok_iff_lines {text : String} {patterns : List IgnorePattern} :
    compile path text = .ok patterns ↔ text.utf8ByteSize ≤ 65536 ∧ Sound (records text.toList) ∧
      patterns = compiled (records text.toList) := by
  rw [compile_eq_ok_iff, readings_eq_map_ok_iff]
  constructor
  · rintro ⟨hsize, hcount, hcompiles, rfl⟩
    rw [length_compiled hcompiles] at hcount
    exact ⟨hsize, ⟨hcount, hcompiles⟩, rfl⟩
  · rintro ⟨hsize, ⟨hroom, hcompiles⟩, rfl⟩
    rw [← length_compiled hcompiles] at hroom
    exact ⟨hsize, hroom, hcompiles, rfl⟩

theorem parse_eq_ok_iff_lines {root : Path} {text : String} {rules : IgnoreRules} :
    parse root path text = .ok rules ↔ text.utf8ByteSize ≤ 65536 ∧ Sound (records text.toList) ∧
      ExpressionFault.of? ((compiled (records text.toList)).map (·.glob)) = Option.none ∧
      ⟨root, compiled (records text.toList)⟩ = rules := by
  simp only [parse, Except.bind_eq_ok, compile_eq_ok_iff_lines, ofPatterns_eq_ok_iff, and_assoc,
    exists_and_left, exists_eq_left]

/-- **An ignore file is accepted just where nothing is wrong with it, and refused for the earliest
thing that is.** Too many bytes come first. Then it is the earliest line that is the 1001st pattern,
however that is spelled, or a pattern with a fault, which is named by its number among all lines and
as it stands there. Files whose lines are all sound are refused only where their patterns, all taken
together, cannot be matched. An accepted file has as many patterns as lines that are patterns. -/
theorem accepted_or_earliest_fault (root path : Path) (text : String) :
    ((∃ rules, parse root path text = .ok rules) ↔
      text.utf8ByteSize ≤ 65536 ∧ (patternLines (records text.toList)).length ≤ 1000 ∧
        (∀ line ∈ patternLines (records text.toList), ∃ p, IgnorePattern.compile line = .ok p) ∧
        ExpressionFault.of? ((compiled (records text.toList)).map (·.glob)) = Option.none) ∧
    (∀ rules, parse root path text = .ok rules →
      rules = ⟨root, compiled (records text.toList)⟩ ∧
        rules.patterns.length = (patternLines (records text.toList)).length) ∧
    ∀ e, parse root path text = .error e ↔
      65536 < text.utf8ByteSize ∧ e = .tooLarge path text.utf8ByteSize ∨
      text.utf8ByteSize ≤ 65536 ∧ (∃ before line after,
        records text.toList = before ++ line :: after ∧ Sound before ∧ Stops path before line e) ∨
      text.utf8ByteSize ≤ 65536 ∧ Sound (records text.toList) ∧ ∃ fault,
        ExpressionFault.of? ((compiled (records text.toList)).map (·.glob)) = some fault ∧
          e = .badExpression fault := by
  refine ⟨?_, ?_, fun e => ?_⟩
  · constructor
    · rintro ⟨rules, hrules⟩
      obtain ⟨hsize, hsound, hmatched, -⟩ := parse_eq_ok_iff_lines.mp hrules
      exact ⟨hsize, hsound.room, hsound.compiles, hmatched⟩
    · rintro ⟨hsize, hroom, hcompiles, hmatched⟩
      exact ⟨_, parse_eq_ok_iff_lines.mpr ⟨hsize, ⟨hroom, hcompiles⟩, hmatched, rfl⟩⟩
  · intro rules hrules
    obtain ⟨-, hsound, -, rfl⟩ := parse_eq_ok_iff_lines.mp hrules
    exact ⟨rfl, length_compiled hsound.compiles⟩
  · rw [parse_eq_error_iff, compile_eq_error_iff, or_assoc]
    simp only [compile_eq_ok_iff_lines, and_assoc, exists_and_left, exists_eq_left]

/-- The line that is one too many is refused as such although it has a fault, and a fault is named
by its number among all lines, with the blanks around it. -/
theorem accepted_or_earliest_fault_late (root path : Path) :
    parse root path (String.ofList (endLf (List.replicate 1000 ['a']) ++ "[z-a]".toList)) =
        .error (.tooManyPatterns path 1001) ∧
      parse root path "# all\n\n*.png\r\n  # more\n [z-a] \n\x7b" =
        .error (.badPattern path 5 " [z-a] ".toList ⟨" [z-a]".toList, .badRange 'z' 'a'⟩) := by
  have hcompiles : ∀ line ∈ [['a'], "*.png".toList], ∃ p, IgnorePattern.compile line = .ok p := by
    have hok : ∀ line ∈ [['a'], "*.png".toList],
        (IgnorePattern.compile line).toOption.isSome = true := by decide +kernel
    intro line hline
    have hsome := hok line hline
    cases hcompile : IgnorePattern.compile line with
    | ok p => exact ⟨p, rfl⟩
    | error cause => rw [hcompile] at hsome; cases hsome
  constructor
  · have hlines : patternLines (List.replicate 1000 ['a']) = List.replicate 1000 ['a'] :=
      List.filter_replicate_of_pos (by decide)
    have hsound : Sound (List.replicate 1000 ['a']) := by
      constructor
      · rw [hlines, List.length_replicate]
      · intro line hline
        rw [hlines] at hline
        exact hcompiles line (by simp [List.eq_of_mem_replicate hline])
    refine ((accepted_or_earliest_fault root path _).2.2 _).mpr (.inr (.inl ⟨?_, ?_⟩))
    · rw [Utf8.utf8ByteSize_eq, String.toList_ofList]
      decide +kernel
    · refine ⟨List.replicate 1000 ['a'], "[z-a]".toList, [], ?_, hsound, .tooMany (by decide) ?_⟩
      · rw [String.toList_ofList]
        decide +kernel
      · rw [hlines, List.length_replicate]
  · have hlines : patternLines ["# all".toList, [], "*.png".toList, "  # more".toList] =
        ["*.png".toList] := by decide
    have hsound : Sound ["# all".toList, [], "*.png".toList, "  # more".toList] := by
      constructor
      · rw [hlines]
        decide
      · intro line hline
        rw [hlines] at hline
        exact hcompiles line (List.mem_cons_of_mem _ hline)
    refine ((accepted_or_earliest_fault root path _).2.2 _).mpr (.inr (.inl ⟨by decide, ?_⟩))
    refine ⟨_, " [z-a] ".toList, ["\x7b".toList], by decide +kernel, hsound,
      .fault (by decide) ?_ (by decide +kernel)⟩
    rw [hlines]
    decide

end AssetPack.IgnoreRules
