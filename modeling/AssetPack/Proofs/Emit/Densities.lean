import AssetPack.Proofs.Emit.Members

/-!
# The densities that a class names

Each accessor gives its image's density to a local variable before it decodes the image. This file
reads these values off the emitted text, in the same way as `Java.Member` reads declarations: an
initialisation stands on a line of its own, behind its tabs (`initializers`). There is one for each
image, and what it holds is the image's density in decimal (`initializers_images`).

The other lines of a template are told from these by what they begin with, up to the first place in
them; only a line that begins with a place needs an argument of its own.
-/

set_option autoImplicit false

namespace AssetPack

open Text

namespace Java

variable {name value line tabs : List Char}

/-- What a line begins with that gives an integer variable its first value. -/
def initializing (name : List Char) : List Char := "int ".toList ++ name ++ " = ".toList

/-- The value that a line gives an integer variable of this name. -/
def initializer? (name line : List Char) : Option (List Char) :=
  ((initializing name).isPrefixOf? (line.dropWhile (· == '\t'))).map (·.takeWhile (· != ';'))

/-- The values that a text gives integer variables of this name, in order. -/
def initializers (name text : List Char) : List (List Char) :=
  (splitLf text).filterMap (initializer? name)

theorem initializer?_eq_none (h : ¬ initializing name <+: line.dropWhile (· == '\t')) :
    initializer? name line = none := by
  rw [initializer?, Option.map_eq_none_iff, ← Option.not_isSome_iff_eq_none,
    List.isSome_isPrefixOf?_eq_isPrefixOf, List.isPrefixOf_iff_prefix]
  exact h

theorem dropWhile_tabs (htabs : tabs.all (· == '\t') = true)
    (hline : line.head? ≠ some '\t') : (tabs ++ line).dropWhile (· == '\t') = line := by
  rw [List.dropWhile_append_of_pos (List.all_eq_true.mp htabs)]
  cases line with
  | nil => rfl
  | cons c r => exact List.dropWhile_cons_of_neg (by simpa using hline)

/-- The value goes up to the semicolon. -/
theorem initializer?_initializing (htabs : tabs.all (· == '\t') = true) (hvalue : ';' ∉ value)
    (r : List Char) :
    initializer? name (tabs ++ (initializing name ++ (value ++ ';' :: r))) = some value := by
  have hmark : ∀ c ∈ value, (c != ';') = true := fun c hc =>
    bne_iff_ne.mpr fun heq => hvalue (heq ▸ hc)
  have hrest := List.isPrefixOf?_eq_some_iff_append_eq.mpr
    (rfl : initializing name ++ (value ++ ';' :: r) = initializing name ++ (value ++ ';' :: r))
  rw [initializer?, dropWhile_tabs htabs (by simp [initializing]), hrest, Option.map_some,
    List.takeWhile_append_of_pos hmark, List.takeWhile_cons_of_neg (by decide), List.append_nil]

/-- An assignment to a variable of any name is none: the type would have to be the name. -/
theorem initializer?_assignment (htabs : tabs.all (· == '\t') = true)
    (hvalue : ∀ c ∈ value, c.isAlphanum = true) (hname : name.head? ≠ some '=')
    (hne : name ≠ []) (r : List Char) :
    initializer? name (tabs ++ (value ++ ' ' :: '=' :: r)) = none := by
  have hpass : ∀ c ∈ value, (c != ' ') = true := by
    intro c hc
    rw [bne_iff_ne]
    rintro rfl
    exact absurd (hvalue _ hc) (by decide)
  have hhead : (value ++ ' ' :: '=' :: r).head? ≠ some '\t' := by
    cases value with
    | nil => simp
    | cons c value =>
      intro h
      obtain rfl : c = '\t' := Option.some.inj h
      exact absurd (hvalue _ List.mem_cons_self) (by decide)
  refine initializer?_eq_none ?_
  rw [dropWhile_tabs htabs hhead]
  rintro ⟨t, ht⟩
  -- Both texts are cut at their first space.
  have htype := congrArg (List.takeWhile (· != ' ')) ht
  rw [List.takeWhile_append_of_pos hpass, List.takeWhile_cons_of_neg (by decide),
    List.append_nil] at htype
  have htype : value = "int".toList := by
    rw [← htype]
    simp [initializing]
  subst htype
  have hback : name ++ (" = ".toList ++ t) = '=' :: r := by
    have hwhole : "int ".toList ++ (name ++ (" = ".toList ++ t)) = "int ".toList ++ '=' :: r := by
      simpa [initializing] using ht
    exact List.append_cancel_left hwhole
  cases name with
  | nil => exact hne rfl
  | cons c name => exact hname (congrArg some (List.cons.inj hback).1)

/-- Lines that are written with their ends are read one by one. -/
theorem initializers_endLf {lines : List (List Char)} (h : ∀ line ∈ lines, '\n' ∉ line) :
    initializers name (endLf lines) = lines.filterMap (initializer? name) := by
  have hlast : initializer? name [] = none := initializer?_eq_none (by simp [initializing])
  rw [initializers, splitLf_endLf h, List.filterMap_append, List.filterMap_cons_none hlast]
  exact List.append_nil _

end Java

namespace Emit

open Java

/-- The variable of an accessor that holds the density of its image. -/
def densityVariable : List Char := "srcDensityDpi".toList

variable {values : List (String × List Char)} {line n : String} {s tabs value : List Char}
  {rest : List String} {found : List (List Char)}

/-- The densities that the lines of a template name when its places are filled. -/
def densitiesIn (values : List (String × List Char)) (lines : List String) : List (List Char) :=
  (lines.map (filledLine values)).filterMap (initializer? densityVariable)

theorem densitiesIn_cons_none (hline : line = String.ofList s)
    (hnone : initializer? densityVariable (Template.fillTogether s values) = none)
    (h : densitiesIn values rest = found) : densitiesIn values (line :: rest) = found := by
  subst hline
  rw [densitiesIn, List.map_cons, List.filterMap_cons_none, ← densitiesIn, h]
  rw [filledLine, String.toList_ofList, hnone]

/-- A line that is empty, or begins otherwise as far as it has no place. -/
def beginsOtherwise (line : List Char) : Bool :=
  let front := (line.takeWhile (· != '\x7b')).dropWhile (· == '\t')
  line.isEmpty || (!(initializing densityVariable).isPrefixOf front &&
    !front.isPrefixOf (initializing densityVariable))

theorem initializer?_of_beginsOtherwise (h : beginsOtherwise s = true) :
    initializer? densityVariable (Template.fillTogether s values) = none := by
  simp only [beginsOtherwise, Bool.or_eq_true, Bool.and_eq_true, Bool.not_eq_true',
    ← Bool.not_eq_true, List.isPrefixOf_iff_prefix, List.isEmpty_iff] at h
  rcases h with rfl | ⟨hpattern, hfront⟩
  · have hnil : ¬ initializing densityVariable <+: [] := by decide
    exact initializer?_eq_none hnil
  · have hopen : '\x7b' ∉ s.takeWhile (· != '\x7b') := by
      intro hmem
      simpa using List.mem_takeWhile_imp hmem
    have hfill := Template.fillTogether_append hopen (s.dropWhile (· != '\x7b')) values
    rw [List.takeWhile_append_dropWhile] at hfill
    have hne : ((s.takeWhile (· != '\x7b')).dropWhile (· == '\t')).isEmpty ≠ true := by
      rw [ne_eq, List.isEmpty_iff]
      intro hnil
      rw [hnil] at hfront
      exact hfront List.nil_prefix
    refine initializer?_eq_none ?_
    rw [hfill, List.dropWhile_append, if_neg hne]
    -- Of two texts that one text begins with, one begins with the other.
    intro hbegins
    rcases List.prefix_or_prefix_of_prefix hbegins (List.prefix_append _ _) with h | h
    · exact hpattern h
    · exact hfront h

theorem densitiesIn_otherwise (hline : line = String.ofList s) (hs : beginsOtherwise s = true)
    (h : densitiesIn values rest = found) : densitiesIn values (line :: rest) = found :=
  densitiesIn_cons_none hline (initializer?_of_beginsOtherwise hs) h

/-- A line that begins with a place, and goes on with an assignment. -/
theorem densitiesIn_assignment (tabs back : List Char) (hline : line = String.ofList s)
    (hs : Template.items s = tabs.map .char ++ .place n :: (' ' :: '=' :: back).map .char)
    (htabs : tabs.all (· == '\t') = true) (hvalue : values.lookup n = some value)
    (hname : ∀ c ∈ value, c.isAlphanum = true) (h : densitiesIn values rest = found) :
    densitiesIn values (line :: rest) = found := by
  refine densitiesIn_cons_none hline ?_ h
  rw [fillTogether_of_items hs hvalue, List.append_assoc]
  exact initializer?_assignment htabs hname (by decide) (by decide) back

/-- The line with the place of the density. -/
theorem densitiesIn_density (tabs : List Char) (hline : line = String.ofList s)
    (hs : Template.items s =
      (tabs ++ initializing densityVariable).map .char ++ .place n :: [';'].map .char)
    (htabs : tabs.all (· == '\t') = true) (hvalue : values.lookup n = some value)
    (hmark : ';' ∉ value) (h : densitiesIn values rest = found) :
    densitiesIn values (line :: rest) = value :: found := by
  subst hline
  rw [densitiesIn, List.map_cons, List.filterMap_cons_some (b := value), ← densitiesIn, h]
  rw [filledLine, String.toList_ofList, fillTogether_of_items hs hvalue, List.append_assoc,
    List.append_assoc, initializer?_initializing htabs hmark]

theorem densitiesIn_prelude : densitiesIn values preludeLines = [] := by
  dsimp only [preludeLines]
  repeat refine densitiesIn_otherwise rfl (by decide +kernel) ?_
  rfl

/-- An accessor names the density of its image, and no other. -/
theorem densitiesIn_accessor (i : Image) :
    densitiesIn (accessorValues i) (accessorLines i.format) =
      [(toString i.density.dpi).toList] := by
  have hfield : ∀ c ∈ i.identifier.fieldName.toList, c.isAlphanum = true :=
    fun _ => Identifier.isAlphanum_of_mem_fieldName
  have hmark : ';' ∉ (toString i.density.dpi).toList :=
    notMem_accessorValues (by decide) (by decide) (by decide) i ("dpi", _)
      (List.mem_cons_of_mem _ (List.mem_cons_of_mem _ List.mem_cons_self))
  cases i.format with
  | bitmap =>
    dsimp only [accessorLines, bitmapLines]
    repeat refine densitiesIn_otherwise rfl (by decide +kernel) ?_
    refine densitiesIn_density ['\t', '\t'] rfl (by decide +kernel) (by decide) (n := "dpi") rfl
      hmark ?_
    repeat refine densitiesIn_otherwise rfl (by decide +kernel) ?_
    refine densitiesIn_assignment ['\t', '\t'] "= bmp;".toList.tail rfl (by decide +kernel)
      (by decide) (n := "field") rfl hfield ?_
    repeat refine densitiesIn_otherwise rfl (by decide +kernel) ?_
    rfl
  | ninePatch =>
    dsimp only [accessorLines, ninePatchLines]
    repeat refine densitiesIn_otherwise rfl (by decide +kernel) ?_
    refine densitiesIn_density ['\t', '\t'] rfl (by decide +kernel) (by decide) (n := "dpi") rfl
      hmark ?_
    repeat refine densitiesIn_otherwise rfl (by decide +kernel) ?_
    refine densitiesIn_assignment ['\t', '\t'] "= wrapper;".toList.tail rfl (by decide +kernel)
      (by decide) (n := "field") rfl hfield ?_
    repeat refine densitiesIn_otherwise rfl (by decide +kernel) ?_
    rfl

/-- The densities that a class names are those of its images, in their order. -/
theorem initializers_images (c : ClassName) (catalog : Catalog Image) {f : Fingerprint}
    (hf : '\n' ∉ f.hex.toList) :
    initializers densityVariable (images c catalog f) =
      catalog.assets.map fun i => (toString i.density.dpi).toList := by
  have hmarker : initializer? densityVariable f.markerLine.toList = none := by
    refine initializer?_eq_none ?_
    rw [Fingerprint.toList_markerLine]
    simp [initializing]
  have hpackage : ((c.package?.map fun p =>
      ["package ".toList ++ p.toList ++ [';']]).getD []).filterMap
        (initializer? densityVariable) = [] := by
    cases c.package? with
    | none => rfl
    | some p =>
      refine List.filterMap_eq_nil_iff.mpr fun line hline => initializer?_eq_none ?_
      rw [List.mem_singleton.mp hline]
      simp [initializing]
  have hclose : initializer? densityVariable ['\x7d'] = none := initializer?_eq_none (by decide)
  have hfilled : ∀ values lines, (lines.map (filledLine values)).filterMap
      (initializer? densityVariable) = densitiesIn values lines := fun _ _ => rfl
  rw [images_eq_endLf, initializers_endLf (lf_notMem_imageLines hf), imageLines,
    List.filterMap_cons_none hmarker, List.filterMap_append, List.filterMap_append,
    List.filterMap_append, hpackage, hfilled, densitiesIn_prelude, List.filterMap_flatMap,
    List.filterMap_cons_none hclose, List.map_eq_flatMap]
  simp only [hfilled, densitiesIn_accessor]
  exact List.append_nil _

end Emit

end AssetPack
