import AssetPack.Proofs.Files.Path
import AssetPack.Proofs.Text.Lines

/-!
# Which texts are class names, and where their files lie

`parse` cuts a text at every dot and looks for the first piece that is no name. What it accepts is
said here by a grammar, segments joined by single dots (`Dotted`), and what it refuses by the first
segment from the left that is none (`FirstBad`): neither is stated through the cutting.

The file of a class lies below the directory that it is put into because no segment is a step out
of it. A segment has no dot, so it is not two dots; it has no slash, so it is one step and not a
path from the root. `components_foldl_push` and `toList_foldl_push` say what that comes to, in the
steps of the path and in its text.
-/

set_option autoImplicit false

namespace AssetPack

open Text

namespace Java

/-! ## Segments -/

/-- A letter of the basic Latin block, an underscore or a dollar sign. -/
def Leads (c : Char) : Prop :=
  ('A' ≤ c ∧ c ≤ 'Z') ∨ ('a' ≤ c ∧ c ≤ 'z') ∨ c = '_' ∨ c = '$'

/-- Such a character or a digit. -/
def Follows (c : Char) : Prop := Leads c ∨ ('0' ≤ c ∧ c ≤ '9')

/-- One segment of a class name. -/
inductive Segment : List Char → Prop where
  | spell {c : Char} {r : List Char} (leads : Leads c) (follows : ∀ d ∈ r, Follows d) :
    Segment (c :: r)

theorem isNameStart_iff {c : Char} : isNameStart c = true ↔ Leads c := by
  have halpha : c.isAlpha = (c.isUpper || c.isLower) := rfl
  have hupper : c.isUpper = decide ('A' ≤ c ∧ c ≤ 'Z') := rfl
  have hlower : c.isLower = (decide ('a' ≤ c) && decide (c ≤ 'z')) := rfl
  simp only [isNameStart, halpha, hupper, hlower, Leads, Bool.or_eq_true, Bool.and_eq_true,
    decide_eq_true_eq, beq_iff_eq, or_assoc]

theorem isNamePart_iff {c : Char} : isNamePart c = true ↔ Follows c := by
  rw [Follows, ← isNameStart_iff]
  simp only [isNamePart, isNameStart, Char.isAlphanum, Char.isDigit, Bool.or_eq_true,
    Bool.and_eq_true, decide_eq_true_eq, Char.le_def, ge_iff_le]
  tauto

theorem isName_iff {s : List Char} : isName s = true ↔ Segment s := by
  cases s with
  | nil =>
    constructor <;> intro h <;> cases h
  | cons c r =>
    rw [isName, Bool.and_eq_true, isNameStart_iff, List.all_eq_true]
    constructor
    · rintro ⟨hc, hr⟩
      exact .spell hc fun d hd => isNamePart_iff.mp (hr d hd)
    · rintro ⟨hc, hr⟩
      exact ⟨hc, fun d hd => isNamePart_iff.mpr (hr d hd)⟩

end Java

/-! ## Names behind a directory -/

namespace Path

theorem components_foldl_push (base : Path) {names : List String} (h : ∀ s ∈ names, IsPlain s) :
    (names.foldl push base).components = base.components ++ names.map .name := by
  induction names generalizing base with
  | nil => simp
  | cons s names ih =>
    rw [List.forall_mem_cons] at h
    rw [List.foldl_cons, ih _ h.2, components_push _ h.1]
    simp

theorem toList_foldl_push (base : Path) {names : List String} (hne : names ≠ [])
    (h : ∀ s ∈ names, IsPlain s) : (names.foldl push base).text.toList =
      base.text.toList ++ gap base ++ join '/' (names.map String.toList) := by
  induction names generalizing base with
  | nil => exact absurd rfl hne
  | cons s names ih =>
    rw [List.forall_mem_cons] at h
    rw [List.foldl_cons, List.map_cons]
    by_cases hnil : names = []
    · subst hnil
      rw [List.foldl_nil, List.map_nil, join_singleton, toList_push base h.1.noSlash]
    · rw [ih _ hnil h.2, gap_push base h.1.isEntryName, toList_push base h.1.noSlash,
        join_cons '/' _ (by simpa using hnil)]
      simp

end Path

namespace ClassName

open Java

/-! ## Dotted names -/

/-- A text that is segments with single dots between them. -/
inductive Dotted : List Char → List (List Char) → Prop where
  | last {s : List Char} (segment : Segment s) : Dotted s [s]
  | more {s r : List Char} {rest : List (List Char)} (segment : Segment s)
      (dotted : Dotted r rest) :
    Dotted (s ++ '.' :: r) (s :: rest)

/-- The first piece from the left that is no segment: in front of it stand only segments, each with
its dot, and it goes as far as the next dot or the end. -/
structure FirstBad (text piece : List Char) : Prop where
  stands : ∃ (front : List (List Char)) (back : List Char),
    text = (front.flatMap fun s => s ++ ['.']) ++ (piece ++ back) ∧
    (∀ s ∈ front, Segment s) ∧ (back = [] ∨ back.head? = some '.')
  noDot : '.' ∉ piece
  bad : ¬ Segment piece

theorem dotted_iff {text : List Char} {segments : List (List Char)} :
    Dotted text segments ↔ split '.' text = segments ∧ ∀ s ∈ segments, isName s = true := by
  constructor
  · intro h
    induction h with
    | last hs =>
      have hname := isName_iff.mpr hs
      exact ⟨split_of_notMem (dot_notMem_of_isName hname), by simpa using hname⟩
    | more hs _ ih =>
      have hname := isName_iff.mpr hs
      rw [split_append (dot_notMem_of_isName hname), ih.1]
      exact ⟨rfl, List.forall_mem_cons.mpr ⟨hname, ih.2⟩⟩
  · rintro ⟨rfl, hnames⟩
    have key : ∀ segments : List (List Char), segments ≠ [] → (∀ s ∈ segments, isName s = true) →
        Dotted (join '.' segments) segments := by
      intro segments
      induction segments with
      | nil => intro hne _; exact absurd rfl hne
      | cons s rest ih =>
        intro _ hall
        rw [List.forall_mem_cons] at hall
        have hs := isName_iff.mp hall.1
        by_cases hrest : rest = []
        · subst hrest
          rw [join_singleton]
          exact .last hs
        · rw [join_cons '.' s hrest]
          exact .more hs (ih hrest hall.2)
    have hdotted := key _ (split_ne_nil '.' text) hnames
    rwa [join_split] at hdotted

theorem split_front {front : List (List Char)} (h : ∀ s ∈ front, isName s = true)
    (r : List Char) :
    split '.' ((front.flatMap fun s => s ++ ['.']) ++ r) = front ++ split '.' r := by
  induction front with
  | nil => rfl
  | cons s front ih =>
    rw [List.forall_mem_cons] at h
    rw [List.flatMap_cons, List.append_assoc, List.append_assoc, List.singleton_append,
      split_append (dot_notMem_of_isName h.1), ih h.2, List.cons_append]

theorem firstBad_iff {text piece : List Char} :
    FirstBad text piece ↔ (split '.' text).find? (fun s => !isName s) = some piece := by
  rw [List.find?_eq_some_iff_append]
  constructor
  · rintro ⟨⟨front, back, rfl, hfront, hback⟩, hdot, hbad⟩
    have hnames : ∀ s ∈ front, isName s = true := fun s hs => isName_iff.mpr (hfront s hs)
    have hpiece : (!isName piece) = true := by
      rw [Bool.not_eq_true', Bool.eq_false_iff]
      exact fun h => hbad (isName_iff.mp h)
    have hgood : ∀ s ∈ front, (!!isName s) = true := by simpa using hnames
    rw [split_front hnames]
    rcases hback with rfl | hback
    · exact ⟨hpiece, front, [], by rw [List.append_nil, split_of_notMem hdot], hgood⟩
    · obtain ⟨r, rfl⟩ := List.head?_eq_some_iff.mp hback
      exact ⟨hpiece, front, split '.' r, by rw [split_append hdot], hgood⟩
  · rintro ⟨hpiece, front, rest, hsplit, hfront⟩
    have hnames : ∀ s ∈ front, isName s = true := by simpa using hfront
    have hmem : piece ∈ split '.' text := by simp [hsplit]
    have hdot : '.' ∉ piece := sep_notMem_of_mem_split hmem
    have htext : text = (front.flatMap fun s => s ++ ['.']) ++ join '.' (piece :: rest) := by
      rw [← join_append '.' front (List.cons_ne_nil _ _), ← hsplit, join_split]
    have hbad : ¬ Segment piece := fun hs => by simp [isName_iff.mpr hs] at hpiece
    refine ⟨?_, hdot, hbad⟩
    by_cases hrest : rest = []
    · subst hrest
      rw [join_singleton] at htext
      exact ⟨front, [], by rw [htext, List.append_nil], fun s hs => isName_iff.mp (hnames s hs),
        .inl rfl⟩
    · rw [join_cons '.' piece hrest] at htext
      exact ⟨front, '.' :: join '.' rest, htext, fun s hs => isName_iff.mp (hnames s hs), .inr rfl⟩

/-! ## Reading -/

theorem find?_map_ofList (pieces : List (List Char)) :
    (pieces.map String.ofList).find? (fun s => !isName s.toList) =
      (pieces.find? fun s => !isName s).map String.ofList := by
  have hspelled : (fun s : String => !isName s.toList) ∘ String.ofList = fun s => !isName s := by
    funext s
    rw [Function.comp_apply, String.toList_ofList]
  rw [List.find?_map, hspelled]

theorem parse_of_find? {n : String} (hn : n ≠ "") {s : List Char}
    (h : (split '.' n.toList).find? (fun s => !isName s) = some s) :
    parse n = .error ⟨n, if s = [] then .emptySegment else .badSegment (String.ofList s)⟩ := by
  have hfind := find?_map_ofList (split '.' n.toList)
  rw [h, Option.map_some] at hfind
  rw [parse, if_neg hn]
  dsimp only
  split
  · rename_i hsome
    rw [hfind] at hsome
    obtain rfl := Option.some.inj hsome
    simp [String.ofList_eq_empty_iff]
  · rename_i hnone
    rw [hfind] at hnone
    cases hnone

theorem exists_parse {n : String} (h : ∀ s ∈ split '.' n.toList, isName s = true) :
    ∃ c, parse n = .ok c ∧ c.segments.map String.toList = split '.' n.toList := by
  have hn : n ≠ "" := by
    rintro rfl
    exact absurd (h [] List.mem_cons_self) (by decide)
  have hfind := find?_map_ofList (split '.' n.toList)
  have hnone : (split '.' n.toList).find? (fun s => !isName s) = none := by simpa using h
  rw [hnone, Option.map_none] at hfind
  rw [parse, if_neg hn]
  dsimp only
  split
  · rename_i hsome
    rw [hfind] at hsome
    cases hsome
  · exact ⟨_, rfl, by simp [Function.comp_def]⟩

/-- A text is read as a class name just if it is dotted, and its segments are those of the name. -/
theorem parse_eq_ok_iff {n : String} {c : ClassName} :
    parse n = .ok c ↔ Dotted n.toList (c.segments.map String.toList) := by
  rw [dotted_iff]
  constructor
  · intro h
    have hn : n ≠ "" := by
      rintro rfl
      cases h
    have hgood : ∀ s ∈ split '.' n.toList, isName s = true := by
      cases hfind : (split '.' n.toList).find? fun s => !isName s with
      | none => simpa using hfind
      | some s =>
        rw [parse_of_find? hn hfind] at h
        cases h
    obtain ⟨c', hparse, hsegments⟩ := exists_parse hgood
    rw [h] at hparse
    obtain rfl := Except.ok.inj hparse
    exact ⟨hsegments.symm, hsegments ▸ hgood⟩
  · rintro ⟨hsplit, hnames⟩
    obtain ⟨⟨segments, hne, hall⟩, hparse, hsegments⟩ := exists_parse (hsplit ▸ hnames)
    rw [hsplit] at hsegments
    obtain rfl : segments = c.segments :=
      (List.map_inj_right fun _ _ => String.toList_inj.mp).mp hsegments
    exact hparse

/-- What is refused, and why: no text at all, or the first piece that is no segment. -/
theorem parse_eq_error_iff {n : String} {e : ClassNameError} :
    parse n = .error e ↔
      n = "" ∧ e = ⟨n, .empty⟩ ∨
      n ≠ "" ∧ ∃ s, FirstBad n.toList s ∧
        e = ⟨n, if s = [] then .emptySegment else .badSegment (String.ofList s)⟩ := by
  simp only [firstBad_iff]
  by_cases hn : n = ""
  · rw [parse, if_pos hn]
    simp [hn, eq_comm]
  · cases hfind : (split '.' n.toList).find? fun s => !isName s with
    | none =>
      obtain ⟨c, hparse, -⟩ := exists_parse (n := n) (by simpa using hfind)
      simp [hparse, hn]
    | some s =>
      rw [parse_of_find? hn hfind]
      simp [hn, eq_comm]

/-! ## Package and file -/

theorem full_of_parse {n : String} {c : ClassName} (h : parse n = .ok c) : c.full = n := by
  obtain ⟨hsplit, -⟩ := dotted_iff.mp (parse_eq_ok_iff.mp h)
  apply String.toList_inj.mp
  rw [full, String.toList_intercalate, ← hsplit]
  exact join_split '.' n.toList

/-- The full name is the package, a dot and the simple name. -/
theorem full_eq (c : ClassName) : c.full =
    match c.package? with
    | some package => package ++ "." ++ c.simpleName
    | none => c.simpleName := by
  have hsegments := List.dropLast_append_getLast c.segments_ne_nil
  apply String.toList_inj.mp
  rw [full, String.toList_intercalate, ← hsegments, package?]
  by_cases hfront : c.segments.dropLast = []
  · rw [if_pos hfront, hfront]
    exact join_singleton '.' _
  · have hne : c.segments.dropLast.map String.toList ≠ [] := by
      rwa [ne_eq, List.map_eq_nil_iff]
    rw [if_neg hfront, List.map_append, List.map_singleton]
    refine (join_concat '.' hne c.simpleName.toList).trans ?_
    simp only [String.toList_append, String.toList_intercalate, List.append_assoc]
    rfl

/-- The steps from a directory to the class's file: one for each segment of the package, and the
file. -/
def steps (c : ClassName) : List String := c.segments.dropLast ++ [c.simpleName ++ ".java"]

theorem isPlain_of_mem_steps (c : ClassName) : ∀ s ∈ c.steps, IsPlain s := by
  simp only [steps, List.forall_mem_append, List.forall_mem_singleton]
  exact ⟨fun s hs => isPlain_of_isName (c.isName_of_mem s ((List.dropLast_sublist _).subset hs)),
    c.isPlain_fileName⟩

theorem sourcePath_eq_foldl (c : ClassName) (base : Path) :
    c.sourcePath base = c.steps.foldl Path.push base := by
  rw [steps, List.foldl_append]
  rfl

theorem components_sourcePath (c : ClassName) (base : Path) :
    (c.sourcePath base).components = base.components ++ c.steps.map .name := by
  rw [sourcePath_eq_foldl, Path.components_foldl_push base c.isPlain_of_mem_steps]

theorem toList_sourcePath (c : ClassName) (base : Path) : (c.sourcePath base).text.toList =
    base.text.toList ++ Path.gap base ++ join '/' (c.steps.map String.toList) := by
  rw [sourcePath_eq_foldl, Path.toList_foldl_push base (by simp [steps]) c.isPlain_of_mem_steps]

/-- The file tells the class. -/
theorem eq_of_same_sourcePath {c c' : ClassName} {base : Path}
    (h : (c.sourcePath base).same (c'.sourcePath base) = true) : c = c' := by
  rw [Path.same_iff, components_sourcePath, components_sourcePath] at h
  have hsteps : c.steps = c'.steps :=
    (List.map_inj_right fun _ _ => Component.name.inj).mp (List.append_cancel_left h)
  obtain ⟨hfront, hfile⟩ := List.append_inj' hsteps rfl
  have hsimple : c.simpleName = c'.simpleName := by
    have hlists := congrArg String.toList (List.singleton_inj.mp hfile)
    apply String.toList_inj.mp
    simpa using hlists
  have hsegments : c.segments = c'.segments := by
    rw [← List.dropLast_append_getLast c.segments_ne_nil,
      ← List.dropLast_append_getLast c'.segments_ne_nil]
    exact congrArg₂ (· ++ [·]) hfront hsimple
  obtain ⟨segments, _, _⟩ := c
  obtain ⟨segments', _, _⟩ := c'
  obtain rfl : segments = segments' := hsegments
  rfl

/-! ## The theorem -/

/-- **A class name is segments joined by single dots, and its file stays below its directory.** Any
other text is refused, for being empty or for its first piece that is no segment. The text is the
package, a dot and the simple name. From whatever directory, the path of the file goes on by one
plain step for each segment of the package and one for the file, and different names have different
files. -/
theorem parses_dotted_and_stays_below (n : String) :
    ((∃ c, parse n = .ok c) ↔ ∃ segments, Dotted n.toList segments) ∧
    (∀ e, parse n = .error e ↔
      n = "" ∧ e = ⟨n, .empty⟩ ∨
      n ≠ "" ∧ ∃ s, FirstBad n.toList s ∧
        e = ⟨n, if s = [] then .emptySegment else .badSegment (String.ofList s)⟩) ∧
    ∀ c, parse n = .ok c →
      Dotted n.toList (c.segments.map String.toList) ∧
      c.full = n ∧
      (n = match c.package? with
        | some package => package ++ "." ++ c.simpleName
        | none => c.simpleName) ∧
      '.' ∉ c.simpleName.toList ∧
      (∀ s ∈ c.segments.dropLast ++ [c.simpleName ++ ".java"], IsPlain s) ∧
      ∀ base : Path,
        (c.sourcePath base).components = base.components ++
          (c.segments.dropLast ++ [c.simpleName ++ ".java"]).map .name ∧
        (c.sourcePath base).text.toList = base.text.toList ++ Path.gap base ++
          join '/' ((c.segments.dropLast ++ [c.simpleName ++ ".java"]).map String.toList) ∧
        ∀ n' c', parse n' = .ok c' →
          (c.sourcePath base).same (c'.sourcePath base) = true → n' = n := by
  refine ⟨⟨?_, ?_⟩, fun e => parse_eq_error_iff, fun c h => ?_⟩
  · rintro ⟨c, h⟩
    exact ⟨_, parse_eq_ok_iff.mp h⟩
  · rintro ⟨segments, h⟩
    obtain ⟨hsplit, hnames⟩ := dotted_iff.mp h
    obtain ⟨c, hparse, -⟩ := exists_parse (hsplit ▸ hnames)
    exact ⟨c, hparse⟩
  · have hfull := full_of_parse h
    refine ⟨parse_eq_ok_iff.mp h, hfull, hfull ▸ c.full_eq,
      dot_notMem_of_isName c.isName_simpleName, c.isPlain_of_mem_steps, fun base =>
      ⟨c.components_sourcePath base, c.toList_sourcePath base, fun n' c' h' hsame => ?_⟩⟩
    rw [← full_of_parse h', ← eq_of_same_sourcePath hsame, hfull]

/-- The file of a class with a package, below a directory that is written with a slash at its
end. -/
theorem parses_dotted_and_stays_below_packaged :
    parse "org.$.Icons_2" = .ok ⟨["org", "$", "Icons_2"], by decide, by decide⟩ ∧
      (sourcePath ⟨["org", "$", "Icons_2"], by decide, by decide⟩ ⟨"../gen/"⟩).text =
        "../gen/org/$/Icons_2.java" := by
  have hparse : parse "org.$.Icons_2" = .ok ⟨["org", "$", "Icons_2"], by decide, by decide⟩ := rfl
  obtain ⟨-, -, hread⟩ := parses_dotted_and_stays_below "org.$.Icons_2"
  obtain ⟨-, -, -, -, -, hfile⟩ := hread _ hparse
  refine ⟨hparse, String.toList_inj.mp ?_⟩
  rw [(hfile ⟨"../gen/"⟩).2.1]
  decide

end ClassName

end AssetPack
