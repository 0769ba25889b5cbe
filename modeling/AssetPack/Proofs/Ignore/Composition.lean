import Mathlib.Logic.Relation
import AssetPack.Proofs.Ignore.Rules

/-!
# Ignore files behind one another

The patterns of two files one behind the other are those of the first and then those of the second,
and the last that speaks of a name decides: the second file says what becomes of a name if it says
anything of it, and the first does otherwise (`verdict?_append`).

Idle lines may be added and taken away, and line feeds may be given carriage returns. `IdleEdit` is
one such change, said of the text and not of the lines that are read from it. None changes a reading
(`IdleEdit.readings_eq`), so any number of them in either direction leads to the same rules.
-/

set_option autoImplicit false

namespace AssetPack

open Text

namespace IgnoreRules

/-! ## The last pattern decides -/

theorem verdict?_append (root : Path) (front back : List IgnorePattern) (name : String) :
    verdict? ⟨root, front ++ back⟩ name =
      (verdict? ⟨root, back⟩ name).or (verdict? ⟨root, front⟩ name) := by
  rw [verdict?, List.reverse_append, List.findSome?_append]
  rfl

theorem verdict?_eq_none_iff {rules : IgnoreRules} {name : String} :
    rules.verdict? name = Option.none ↔
      ∀ p ∈ rules.patterns, ¬p.Applies (relativeName rules.root name) := by
  simp [verdict?, IgnorePattern.verdict?_eq_none_iff]

/-- Patterns behind others decide on the names that they speak of, and on no other. -/
theorem isIgnored_append (root : Path) (front back : List IgnorePattern) (name : String) :
    isIgnored ⟨root, front ++ back⟩ name =
      if ∃ p ∈ back, p.Applies (relativeName root name) then isIgnored ⟨root, back⟩ name
      else isIgnored ⟨root, front⟩ name := by
  rw [isIgnored, verdict?_append]
  split
  · rename_i h
    have hsome : verdict? ⟨root, back⟩ name ≠ Option.none := fun hnone => by
      obtain ⟨p, hp, happlies⟩ := h
      exact verdict?_eq_none_iff.mp hnone p hp happlies
    obtain ⟨v, hv⟩ := Option.ne_none_iff_exists'.mp hsome
    rw [isIgnored, hv]
    rfl
  · rename_i h
    have hnone : verdict? ⟨root, back⟩ name = Option.none :=
      verdict?_eq_none_iff.mpr fun p hp happlies => h ⟨p, hp, happlies⟩
    rw [isIgnored, hnone]
    rfl

/-- The rules of a file with another one behind it. -/
theorem eq_of_parse_append {root path : Path} {a b : String} {ra rb rules : IgnoreRules}
    (ha : EndsLine a.toList) (hra : parse root path a = .ok ra) (hrb : parse root path b = .ok rb)
    (hrules : parse root path (a ++ b) = .ok rules) :
    rules = ⟨root, ra.patterns ++ rb.patterns⟩ := by
  obtain ⟨-, -, -, hreada, -⟩ := parse_eq_ok_iff.mp hra
  obtain ⟨-, -, -, hreadb, -⟩ := parse_eq_ok_iff.mp hrb
  obtain ⟨hroot, -, -, hread, -⟩ := parse_eq_ok_iff.mp hrules
  rw [String.toList_append, records_append ha, readings_append, hreada, hreadb,
    ← List.map_append] at hread
  have hpatterns := List.map_injective_iff.mpr (fun _ _ => Except.ok.inj) hread
  cases rules
  exact congr (congrArg _ hroot) hpatterns.symm

/-! ## Changes that say nothing -/

/-- A change of a text that adds an idle line, or a carriage return to a line end or to all. A line
is added where one begins, with its line feed or, as the last one, without. -/
inductive IdleEdit : List Char → List Char → Prop
  | line {front line : List Char} (hfront : EndsLine front) (hlf : '\n' ∉ line)
      (hidle : IsIdle line) (back : List Char) :
    IdleEdit (front ++ back) (front ++ (line ++ '\n' :: back))
  | lastLine {front line : List Char} (hfront : EndsLine front) (hlf : '\n' ∉ line)
      (hidle : IsIdle line) : IdleEdit front (front ++ line)
  /-- Behind a last line that has no end, a line brings along the line end between the two. A carriage
  return with which the last line ends is a character of that line, and stays in it before a line end
  of two characters. A line feed alone would make a line end of the two and cut the carriage return
  off the line. That changes the line itself where the carriage return stands behind a backslash and
  a space: what is left ends in a space that the backslash keeps (`isIgnored_behind_cr`). Such a
  change does more than to add a line, and is none of these. -/
  | behind {front line lineEnd : List Char} (hlf : '\n' ∉ line) (hidle : IsIdle line)
      (hend : lineEnd = ['\n'] ∧ ¬['\\', ' ', '\r'] <:+ front ∨ lineEnd = ['\r', '\n']) :
    IdleEdit front (front ++ (lineEnd ++ line))
  | lineEnd {front : List Char} (hcr : front.getLast? ≠ some '\r') (back : List Char) :
    IdleEdit (front ++ '\n' :: back) (front ++ '\r' :: '\n' :: back)
  | lineEnds {text : List Char} (hcr : '\r' ∉ text) : IdleEdit text (crLf text)

/-- Behind a last line without an end, a line brings along the line end between them. -/
theorem readings_behind {front line lineEnd : List Char} (hlf : '\n' ∉ line) (hidle : IsIdle line)
    (hend : lineEnd = ['\n'] ∧ ¬['\\', ' ', '\r'] <:+ front ∨ lineEnd = ['\r', '\n']) :
    readings (records (front ++ (lineEnd ++ line))) = readings (records front) := by
  obtain ⟨front, last, rfl, hfront, hlast⟩ := exists_lastLine front
  have hline : readings (records line) = [] := by
    rw [readings_records_of_notMem hlf, readings_idle hidle, readings_nil]
  rw [List.append_assoc, records_append hfront, records_append hfront, readings_append,
    readings_append, readings_records_of_notMem hlast]
  congr 1
  obtain ⟨rfl, hcr⟩ | rfl := hend
  · have hkept : ¬['\\', ' ', '\r'] <:+ last := fun h =>
      hcr (h.trans (List.suffix_append front last))
    rw [List.singleton_append, records_line hlast, readings_dropFinalCr hkept,
      ← List.singleton_append, readings_append, hline, List.append_nil]
  · have hends : last ++ (['\r', '\n'] ++ line) = (last ++ ['\r']) ++ '\n' :: line := by simp
    rw [hends, records_line (by simpa using hlast), dropFinalCr_concat,
      ← List.singleton_append, readings_append, hline, List.append_nil]

/-- A pattern from which a line feed behind it cuts a carriage return off is another pattern. This
one loses the space in front of the carriage return with it and keeps the space without it. -/
theorem isIgnored_behind_cr :
    (parse ⟨"/src"⟩ ⟨"/src/.assetignore"⟩ "wip\\\\ \r").toOption.map (·.isIgnored "wip\\") =
        some true ∧
      (parse ⟨"/src"⟩ ⟨"/src/.assetignore"⟩ "wip\\\\ \r\n# more").toOption.map
        (·.isIgnored "wip\\") = some false := by
  decide +kernel

/-- A change that says nothing leaves what is read, in each case for a reason of its own. -/
theorem IdleEdit.readings_eq {s t : List Char} (h : IdleEdit s t) :
    readings (records s) = readings (records t) := by
  cases h with
  | line hfront hlf hidle back =>
    rw [records_append hfront, records_append hfront, records_line hlf, readings_append,
      readings_append, readings_idle hidle.dropFinalCr]
  | lastLine hfront hlf hidle =>
    rw [records_append hfront, readings_append, readings_records_of_notMem hlf,
      readings_idle hidle, readings_nil, List.append_nil]
  | behind hlf hidle hend => exact (readings_behind hlf hidle hend).symm
  | lineEnd hcr back => rw [records_cr_lf hcr]
  | lineEnds hcr => rw [records_crLf hcr]

theorem readings_eq_of_eqvGen {s t : List Char} (h : Relation.EqvGen IdleEdit s t) :
    readings (records s) = readings (records t) := by
  induction h with
  | rel s t h => exact h.readings_eq
  | refl s => rfl
  | symm s t _ ih => exact ih.symm
  | trans s t u _ _ ihst ihtu => exact ihst.trans ihtu

/-! ## Composition -/

/-- Ignore files compose by last match. Behind a file whose lines are ended, the patterns of another
one add up with its own, and the decision on a name is that of the second file if one of its
patterns speaks of the name, to ignore it or to take it back, and that of the first otherwise.
Idle lines, added or taken away, and the spelling of line ends change nothing, as long as the file
is not too large with them. -/
theorem composes_by_last_match (root path : Path) :
    (∀ (a b : String) (ra rb rules : IgnoreRules), EndsLine a.toList →
      parse root path a = .ok ra → parse root path b = .ok rb →
      parse root path (a ++ b) = .ok rules →
        rules.patterns.length = ra.patterns.length + rb.patterns.length ∧
        ∀ name : String, rules.isIgnored name =
          if ∃ p ∈ rb.patterns, p.Applies (relativeName root name) then rb.isIgnored name
          else ra.isIgnored name) ∧
    (∀ (a b : String) (rules : IgnoreRules), Relation.EqvGen IdleEdit a.toList b.toList →
      parse root path a = .ok rules → b.utf8ByteSize ≤ IgnoreError.maxBytes →
        parse root path b = .ok rules) := by
  constructor
  · intro a b ra rb rules ha hra hrb hrules
    obtain rfl := eq_of_parse_append ha hra hrb hrules
    obtain ⟨rfl, -⟩ := parse_eq_ok_iff.mp hra
    obtain ⟨hroot, -⟩ := parse_eq_ok_iff.mp hrb
    have hrb' : (⟨ra.root, rb.patterns⟩ : IgnoreRules) = rb := by rw [← hroot]
    refine ⟨List.length_append, fun name => ?_⟩
    rw [isIgnored_append, hrb']
  · intro a b rules hedit ha hsize
    obtain ⟨hroot, -, hcount, hread, hfault⟩ := parse_eq_ok_iff.mp ha
    rw [readings_eq_of_eqvGen hedit] at hread
    exact parse_eq_ok_iff.mpr ⟨hroot, hsize, hcount, hread, hfault⟩

/-- A pattern takes back one of the names that another file ignores, with a comment between. -/
theorem composes_by_last_match_basic :
    ∃ rules, parse ⟨"/src"⟩ ⟨"/src/.assetignore"⟩ ("*.vsh\n" ++ "!basic.vsh") = .ok rules ∧
      rules.patterns.length = 2 ∧ rules.isIgnored "basic.vsh" = false ∧
      rules.isIgnored "line.vsh" = true ∧
      parse ⟨"/src"⟩ ⟨"/src/.assetignore"⟩ "*.vsh\n # needed\r\n!basic.vsh" = .ok rules := by
  obtain ⟨ra, hra, ha⟩ : ∃ ra, parse ⟨"/src"⟩ ⟨"/src/.assetignore"⟩ "*.vsh\n" = .ok ra ∧
      (ra.patterns.length, ra.isIgnored "line.vsh") = (1, true) :=
    Except.exists_eq_ok_of_toOption (by decide +kernel)
  obtain ⟨rb, hrb, hb⟩ : ∃ rb, parse ⟨"/src"⟩ ⟨"/src/.assetignore"⟩ "!basic.vsh" = .ok rb ∧
      (rb.patterns.length, rb.isIgnored "basic.vsh",
        decide (∃ p ∈ rb.patterns, p.Applies (relativeName ⟨"/src"⟩ "basic.vsh")),
        decide (∃ p ∈ rb.patterns, p.Applies (relativeName ⟨"/src"⟩ "line.vsh"))) =
      (1, false, true, false) :=
    Except.exists_eq_ok_of_toOption (by decide +kernel)
  obtain ⟨rules, hrules, -⟩ : ∃ rules,
      parse ⟨"/src"⟩ ⟨"/src/.assetignore"⟩ ("*.vsh\n" ++ "!basic.vsh") = .ok rules ∧
        rules.root = ⟨"/src"⟩ :=
    Except.exists_eq_ok_of_toOption (by decide +kernel)
  simp only [Prod.mk.injEq, decide_eq_true_eq, decide_eq_false_iff_not] at ha hb
  obtain ⟨happend, hkeeps⟩ := composes_by_last_match ⟨"/src"⟩ ⟨"/src/.assetignore"⟩
  obtain ⟨hcount, hignored⟩ := happend _ _ ra rb rules (Or.inr (by decide)) hra hrb hrules
  have htext : "*.vsh\n # needed\r\n!basic.vsh".toList =
      "*.vsh\n".toList ++ (" # needed\r".toList ++ '\n' :: "!basic.vsh".toList) := by decide
  have hedit : IdleEdit ("*.vsh\n" ++ "!basic.vsh").toList
      "*.vsh\n # needed\r\n!basic.vsh".toList := by
    rw [String.toList_append, htext]
    exact .line (Or.inr (by decide)) (by decide) (isPatternLine_eq_false_iff.mp (by decide)) _
  refine ⟨rules, hrules, ?_, ?_, ?_, ?_⟩
  · rw [hcount, ha.1, hb.1]
  · rw [hignored, if_pos hb.2.2.1, hb.2.1]
  · rw [hignored, if_neg hb.2.2.2, ha.2]
  · exact hkeeps _ _ rules (.rel _ _ hedit) hrules (by decide)

end IgnoreRules

end AssetPack
