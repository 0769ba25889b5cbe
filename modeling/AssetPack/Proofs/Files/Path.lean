import AssetPack.Files.Path
import AssetPack.Java.ClassName

/-!
# Paths as lists of steps

`push` works on texts, and whether two paths are the same is asked of their steps. What joins the
two is `components_push`: a plain name put behind a path, however that is written, adds one step
and leaves the others. So the file of a name in a directory is known by the directory's steps and
the name, and a path with a plain name at its end can be taken apart again.

Names that a path itself has as steps are always plain (`isPlain_of_mem_components`); that is why a
listing gives names which can be put behind the directory that was listed.
-/

set_option autoImplicit false

namespace AssetPack

/-- A name that is one step: no slash in it, and no name of the directories themselves. -/
structure IsPlain (name : String) : Prop where
  ne_empty : name ≠ ""
  ne_here : name ≠ "."
  ne_up : name ≠ ".."
  noSlash : '/' ∉ name.toList

/-- A name that something in a directory can have: one piece of a path, whatever step it is. -/
structure IsEntryName (name : String) : Prop where
  ne_empty : name ≠ ""
  noSlash : '/' ∉ name.toList

theorem IsPlain.isEntryName {name : String} (h : IsPlain name) : IsEntryName name :=
  ⟨h.ne_empty, h.noSlash⟩

instance (name : String) : Decidable (IsPlain name) :=
  decidable_of_iff (name ≠ "" ∧ name ≠ "." ∧ name ≠ ".." ∧ '/' ∉ name.toList)
    ⟨fun ⟨a, b, c, d⟩ => ⟨a, b, c, d⟩, fun ⟨a, b, c, d⟩ => ⟨a, b, c, d⟩⟩

namespace Component

theorem ofInner?_of_isPlain {name : String} (h : IsPlain name) :
    ofInner? name.toList = some (.name name) := by
  have hempty : name.toList ≠ [] := fun hn => h.ne_empty (String.toList_inj.mp hn)
  have hhere : name.toList ≠ ['.'] := fun hn => h.ne_here (String.toList_inj.mp hn)
  have hup : name.toList ≠ ['.', '.'] := fun hn => h.ne_up (String.toList_inj.mp hn)
  simp [ofInner?, hempty, hhere, hup]

theorem eq_of_ofInner? {piece : List Char} {step : Component} (h : ofInner? piece = some step) :
    step = .up ∨ step = .name (String.ofList piece) := by
  unfold ofInner? at h
  split at h
  · cases h
  · split at h
    · exact .inl (Option.some.inj h).symm
    · exact .inr (Option.some.inj h).symm

theorem isPlain_of_ofInner? {piece : List Char} (hslash : '/' ∉ piece) {s : String}
    (h : ofInner? piece = some (.name s)) : IsPlain s := by
  unfold ofInner? at h
  split at h
  · cases h
  · rename_i hidle
    split at h
    · cases h
    · rename_i hup
      obtain rfl : String.ofList piece = s := by simpa using h
      simp only [not_or] at hidle
      refine ⟨fun hs => hidle.1 ?_, fun hs => hidle.2 ?_, fun hs => hup ?_, by simpa using hslash⟩
      all_goals simpa using congrArg String.toList hs

end Component

namespace Path

open Component

/-! ## Steps of a text -/

/-- The steps that the first piece of a path stands for, among the others. -/
def opening (first : List Char) (rest : List (List Char)) : List Component :=
  if first = [] then (if rest = [] then [] else [.root])
  else if first = ['.'] then [.here]
  else (ofInner? first).toList

theorem opening_eq {rest rest' : List (List Char)} (h : rest ≠ []) (h' : rest' ≠ [])
    (first : List Char) : opening first rest = opening first rest' := by
  simp only [opening, h, h', if_false]

theorem components_of_split {p : Path} {first : List Char} {rest : List (List Char)}
    (h : Text.split '/' p.text.toList = first :: rest) :
    p.components = opening first rest ++ rest.filterMap ofInner? := by
  rw [components, h]
  rfl

theorem components_append (s : List Char) {piece : List Char} (h : '/' ∉ piece)
    {first : List Char} {rest : List (List Char)} (hs : Text.split '/' s = first :: rest) :
    components ⟨String.ofList (s ++ '/' :: piece)⟩ =
      opening first [[]] ++ rest.filterMap ofInner? ++ (ofInner? piece).toList := by
  have hsplit : Text.split '/' (s ++ '/' :: piece) = first :: (rest ++ [piece]) := by
    rw [Text.split_append_sep, hs, Text.split_of_notMem h, List.cons_append]
  rw [components_of_split (by rw [String.toList_ofList, hsplit]), List.filterMap_append,
    opening_eq (by simp) (List.cons_ne_nil [] []), List.append_assoc]
  cases hpiece : ofInner? piece <;> simp [hpiece]

/-- A piece behind a slash adds the step that it is. -/
theorem components_slash_append (s : List Char) {piece : List Char} (h : '/' ∉ piece) :
    components ⟨String.ofList (s ++ '/' :: piece)⟩ =
      components ⟨String.ofList (s ++ ['/'])⟩ ++ (ofInner? piece).toList := by
  obtain ⟨first, rest, hs⟩ := List.exists_cons_of_ne_nil (Text.split_ne_nil '/' s)
  rw [components_append s h hs, components_append s List.not_mem_nil hs]
  simp [ofInner?]

/-- A final slash is no step, unless it is all there is. -/
theorem components_slash {s : List Char} (hs : s ≠ []) :
    components ⟨String.ofList (s ++ ['/'])⟩ = components ⟨String.ofList s⟩ := by
  obtain ⟨first, rest, hsplit⟩ := List.exists_cons_of_ne_nil (Text.split_ne_nil '/' s)
  have hopening : opening first [[]] = opening first rest := by
    by_cases hrest : rest = []
    · -- The only piece is all of the text.
      have hjoin := (Text.join_split '/' s).symm
      obtain rfl : s = first := by simpa [hsplit, hrest, Text.join] using hjoin
      simp only [opening, hs, if_false]
    · exact opening_eq (List.cons_ne_nil _ _) hrest first
  rw [components_append s List.not_mem_nil hsplit,
    components_of_split (by rw [String.toList_ofList, hsplit]), hopening]
  simp [ofInner?]

/-! ## Plain names behind a path -/

theorem components_of_isPlain {name : String} (h : IsPlain name) :
    components ⟨name⟩ = [.name name] := by
  have hempty : name.toList ≠ [] := fun hn => h.ne_empty (String.toList_inj.mp hn)
  have hhere : name.toList ≠ ['.'] := fun hn => h.ne_here (String.toList_inj.mp hn)
  rw [components_of_split (Text.split_of_notMem h.noSlash)]
  simp [opening, hempty, hhere, ofInner?_of_isPlain h]

theorem components_slash_name (s : List Char) {name : String} (h : IsPlain name) :
    components ⟨String.ofList (s ++ ['/']) ++ name⟩ =
      components ⟨String.ofList (s ++ ['/'])⟩ ++ [.name name] := by
  have htext : String.ofList (s ++ ['/']) ++ name = String.ofList (s ++ '/' :: name.toList) :=
    String.toList_inj.mp (by simp)
  rw [htext, components_slash_append s h.noSlash, ofInner?_of_isPlain h]
  rfl

/-- A plain name behind a path is one more step. -/
theorem components_push (p : Path) {name : String} (h : IsPlain name) :
    (p.push name).components = p.components ++ [.name name] := by
  have hhead : name.toList.head? ≠ some '/' := fun hn => h.noSlash (List.mem_of_mem_head? hn)
  obtain ⟨text⟩ := p
  rw [push, if_neg hhead]
  split
  case h_1 hnone =>
    obtain rfl : text = "" := String.toList_inj.mp (List.getLast?_eq_none_iff.mp hnone)
    exact components_of_isPlain h
  case h_2 hslash =>
    obtain ⟨s, hs⟩ := List.getLast?_eq_some_iff.mp hslash
    obtain rfl : text = String.ofList (s ++ ['/']) := String.toList_inj.mp (by simpa using hs)
    exact components_slash_name s h
  case h_3 c _ hlast =>
    have hne : text.toList ≠ [] := fun hn => by simp [hn] at hlast
    have htext : text ++ "/" = String.ofList (text.toList ++ ['/']) :=
      String.toList_inj.mp (by simp)
    rw [htext, components_slash_name _ h, components_slash hne, String.ofList_toList]

theorem fileName?_push (p : Path) {name : String} (h : IsPlain name) :
    (p.push name).fileName? = some name := by
  rw [fileName?, components_push p h, List.getLast?_concat]

theorem parentComponents?_push (p : Path) {name : String} (h : IsPlain name) :
    (p.push name).parentComponents? = some p.components := by
  rw [parentComponents?, components_push p h, List.getLast?_concat, List.dropLast_concat]

/-! ## Texts behind a path -/

/-- What a directory needs behind it before a name. -/
def gap (base : Path) : List Char :=
  if base.text = "" ∨ base.text.toList.getLast? = some '/' then [] else ['/']

theorem toList_push (base : Path) {name : String} (h : '/' ∉ name.toList) :
    (base.push name).text.toList = base.text.toList ++ gap base ++ name.toList := by
  have hhead : name.toList.head? ≠ some '/' := fun hn => h (List.mem_of_mem_head? hn)
  rw [push, if_neg hhead]
  split
  case h_1 hnone =>
    have hempty : base.text.toList = [] := List.getLast?_eq_none_iff.mp hnone
    simp [gap, String.toList_inj.mp (hempty.trans String.toList_empty.symm)]
  case h_2 hslash => simp [gap, hslash]
  case h_3 c hc hlast =>
    have hne : base.text ≠ "" := by
      intro hempty
      simp [hempty] at hlast
    have hslash : c ≠ '/' := by
      rintro rfl
      exact hc rfl
    simp [gap, hne, hlast, hslash]

/-- A name does not end in a slash, so from the second name on there is a slash in front. -/
theorem gap_push (base : Path) {name : String} (h : IsEntryName name) :
    gap (base.push name) = ['/'] := by
  obtain ⟨c, hc⟩ : ∃ c, name.toList.getLast? = some c := by
    cases hlast : name.toList.getLast? with
    | none =>
      have hempty := List.getLast?_eq_none_iff.mp hlast
      exact absurd (String.toList_inj.mp (hempty.trans String.toList_empty.symm)) h.ne_empty
    | some c => exact ⟨c, rfl⟩
  have hlast : (base.push name).text.toList.getLast? = some c := by
    rw [toList_push base h.noSlash, List.getLast?_append, hc, Option.some_or]
  have hne : (base.push name).text ≠ "" := by
    intro hempty
    simp [hempty] at hlast
  have hslash : c ≠ '/' := by
    rintro rfl
    exact h.noSlash (List.mem_of_getLast? hc)
  simp [gap, hne, hlast, hslash]

/-! ## Paths with the same steps -/

theorem same_self (p : Path) : p.same p = true := same_iff.mpr rfl

theorem same_congr {q q' : Path} (h : q.same q' = true) (p : Path) : p.same q = p.same q' := by
  rw [same, same, same_iff.mp h]

theorem fileName?_of_same {p q : Path} (h : p.same q = true) : p.fileName? = q.fileName? := by
  rw [fileName?, fileName?, same_iff.mp h]

theorem parentComponents?_of_same {p q : Path} (h : p.same q = true) :
    p.parentComponents? = q.parentComponents? := by
  rw [parentComponents?, parentComponents?, same_iff.mp h]

/-! ## Names on the way -/

/-- A step that is a name is a plain one. -/
theorem isPlain_of_mem_components {p : Path} {s : String} (h : .name s ∈ p.components) :
    IsPlain s := by
  obtain ⟨first, rest, hsplit⟩ := List.exists_cons_of_ne_nil (Text.split_ne_nil '/' p.text.toList)
  have hslash : ∀ piece ∈ first :: rest, '/' ∉ piece := fun piece hp =>
    Text.sep_notMem_of_mem_split (hsplit ▸ hp)
  rw [components_of_split hsplit] at h
  rcases List.mem_append.mp h with hopening | hrest
  · have hfirst : ofInner? first = some (.name s) := by
      unfold opening at hopening
      split at hopening
      · split at hopening <;> simp at hopening
      · split at hopening
        · simp at hopening
        · simpa using hopening
    exact isPlain_of_ofInner? (hslash first List.mem_cons_self) hfirst
  · obtain ⟨piece, hp, hname⟩ := List.mem_filterMap.mp hrest
    exact isPlain_of_ofInner? (hslash piece (List.mem_cons_of_mem _ hp)) hname

/-- A step behind the first is not the root, so its text is a name. -/
theorem isEntryName_of_mem_tail {p : Path} {step : Component} (h : step ∈ p.components.tail) :
    IsEntryName step.text := by
  obtain ⟨first, rest, hsplit⟩ := List.exists_cons_of_ne_nil (Text.split_ne_nil '/' p.text.toList)
  have hinner : step ∈ rest.filterMap ofInner? := by
    rw [components_of_split hsplit] at h
    have hopening : opening first rest = [] ∨ ∃ c, opening first rest = [c] := by
      unfold opening
      split
      · split <;> simp
      · split
        · simp
        · cases ofInner? first <;> simp
    rcases hopening with hnil | ⟨c, hone⟩
    · rw [hnil, List.nil_append] at h
      exact List.mem_of_mem_tail h
    · rwa [hone, List.singleton_append, List.tail_cons] at h
  obtain ⟨piece, hp, hstep⟩ := List.mem_filterMap.mp hinner
  have hslash : '/' ∉ piece := Text.sep_notMem_of_mem_split (hsplit ▸ List.mem_cons_of_mem _ hp)
  rcases eq_of_ofInner? hstep with rfl | rfl
  · exact ⟨by decide, by decide⟩
  · exact (isPlain_of_ofInner? hslash hstep).isEntryName

theorem isPlain_of_fileName? {p : Path} {s : String} (h : p.fileName? = some s) : IsPlain s := by
  refine isPlain_of_mem_components (p := p) (List.mem_of_mem_getLast? ?_)
  unfold fileName? at h
  split at h
  · simp_all
  · cases h

/-! ## Extensions -/

/-- The extension of a name that does not begin with a dot is what stands behind its last dot. -/
theorem extension?_eq_some_iff {name extension : String} (h : name.toList.head? ≠ some '.') :
    extension? name = some extension ↔
      ∃ stem, name = stem ++ "." ++ extension ∧ '.' ∉ extension.toList := by
  have hup : name ≠ ".." := by
    rintro rfl
    exact h rfl
  unfold extension?
  rw [if_neg hup]
  constructor
  · intro hsome
    split at hsome
    · rename_i c front hdrop
      obtain rfl := Option.some.inj hsome
      refine ⟨String.ofList (c :: front).reverse, ?_, ?_⟩
      · have hall := List.takeWhile_append_dropWhile (p := (· != '.')) (l := name.toList.reverse)
        rw [hdrop] at hall
        generalize name.toList.reverse.takeWhile (· != '.') = after at hall ⊢
        apply String.toList_inj.mp
        rw [← List.reverse_reverse name.toList, ← hall]
        simp
      · intro hdot
        rw [String.toList_ofList, List.mem_reverse] at hdot
        have hkept := List.all_eq_true.mp List.all_takeWhile _ hdot
        exact absurd hkept (by simp)
    · cases hsome
  · rintro ⟨stem, rfl, hdot⟩
    have hreverse : (stem ++ "." ++ extension).toList.reverse =
        extension.toList.reverse ++ '.' :: stem.toList.reverse := by
      simp
    have hall : ∀ c ∈ extension.toList.reverse, (c != '.') = true := by
      intro c hc
      rw [bne_iff_ne]
      rintro rfl
      exact hdot (List.mem_reverse.mp hc)
    rw [hreverse, List.takeWhile_append_of_pos hall, List.dropWhile_append_of_pos hall,
      List.dropWhile_cons_of_neg (by simp), List.takeWhile_cons_of_neg (by simp), List.append_nil]
    dsimp only
    rw [List.reverse_reverse, String.ofList_toList]
    cases hstem : stem.toList.reverse with
    | nil =>
      have hempty : stem.toList = [] := List.reverse_eq_nil_iff.mp hstem
      refine absurd ?_ h
      simp [hempty]
    | cons c front => rfl

end Path

/-! ## Class files -/

namespace Java

theorem isNamePart_of_mem {s : List Char} (h : isName s = true) {c : Char} (hc : c ∈ s) :
    isNamePart c = true := by
  cases s with
  | nil => cases hc
  | cons d s =>
    rw [isName, Bool.and_eq_true] at h
    rcases List.mem_cons.mp hc with rfl | hc
    · have hstart := h.1
      simp only [isNameStart, isNamePart, Char.isAlphanum, Bool.or_eq_true] at hstart ⊢
      grind
    · exact List.all_eq_true.mp h.2 c hc

theorem ne_nil_of_isName {s : List Char} (h : isName s = true) : s ≠ [] := by
  rintro rfl
  cases h

theorem dot_notMem_of_isName {s : List Char} (h : isName s = true) : '.' ∉ s := fun hdot =>
  absurd (isNamePart_of_mem h hdot) (by decide)

theorem slash_notMem_of_isName {s : List Char} (h : isName s = true) : '/' ∉ s := fun hslash =>
  absurd (isNamePart_of_mem h hslash) (by decide)

/-- A name of the language is one step of a path. -/
theorem isPlain_of_isName {name : String} (h : isName name.toList = true) : IsPlain name where
  ne_empty := by
    rintro rfl
    cases h
  ne_here := by
    rintro rfl
    exact dot_notMem_of_isName h (by decide)
  ne_up := by
    rintro rfl
    exact dot_notMem_of_isName h (by decide)
  noSlash := slash_notMem_of_isName h

end Java

namespace ClassName

theorem isName_simpleName (c : ClassName) : Java.isName c.simpleName.toList = true :=
  c.isName_of_mem _ (List.getLast_mem _)

/-- The full name tells the segments. -/
theorem full_injective {c c' : ClassName} (h : c.full = c'.full) : c = c' := by
  have hdot : ∀ c : ClassName, ∀ piece ∈ c.segments.map String.toList, '.' ∉ piece := by
    intro c piece hp hmem
    obtain ⟨s, hs, rfl⟩ := List.mem_map.mp hp
    exact Java.dot_notMem_of_isName (c.isName_of_mem s hs) hmem
  have hsplit : ∀ c : ClassName,
      Text.split '.' c.full.toList = c.segments.map String.toList := by
    intro c
    rw [full, String.toList_intercalate]
    exact Text.split_join (by simpa using c.segments_ne_nil) (hdot c)
  have hsegments : c.segments.map String.toList = c'.segments.map String.toList := by
    rw [← hsplit, ← hsplit, h]
  obtain ⟨segments, _, _⟩ := c
  obtain ⟨segments', _, _⟩ := c'
  obtain rfl : segments = segments' :=
    (List.map_inj_right fun _ _ => String.toList_inj.mp).mp hsegments
  rfl

/-- The name of the class's file. -/
def fileName (c : ClassName) : String := c.simpleName ++ ".java"

theorem isPlain_fileName (c : ClassName) : IsPlain c.fileName := by
  have hslash : '/' ∉ c.simpleName.toList := Java.slash_notMem_of_isName c.isName_simpleName
  have hlength : 5 ≤ c.fileName.toList.length := by simp [fileName]
  refine ⟨?_, ?_, ?_, by simpa [fileName] using hslash⟩ <;>
    exact fun h => by simp [h] at hlength

/-- The file of a class lies in some directory under the class's name. -/
theorem sourcePath_eq_push (c : ClassName) (base : Path) :
    ∃ dir : Path, c.sourcePath base = dir.push c.fileName :=
  ⟨_, rfl⟩

end ClassName

end AssetPack
