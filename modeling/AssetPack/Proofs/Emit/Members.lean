import AssetPack.Files.Memory
import AssetPack.Proofs.Emit.Images
import AssetPack.Proofs.Java.Members
import AssetPack.Scan
import Mathlib.Data.List.Nodup

/-!
# When the members of a class of images are distinct

A catalog holds each identifier once, but members are named after identifiers in mixed case, which
runs some of them together. This file reads the members off the emitted text (`members_images`) and
says for which images two of them are the same (`SameField`, `SameMethod`): `Foo` and `foo` have one
accessor, `foo_bar` and `fooBar` have one field, and a bitmap `foo_wrapper` has the accessor that a
nine-patch `foo` keeps for itself.

The runtime's own methods have names that begin otherwise, so they are never in the way.
-/

set_option autoImplicit false

namespace AssetPack

open Text Java

namespace Emit

/-! ## The lines of a template -/

variable {values : List (String × List Char)}

/-- A line of a template with its values. -/
def filledLine (values : List (String × List Char)) (line : String) : List Char :=
  Template.fillTogether line.toList values

theorem fillTogether_unlines (lines : List String) :
    Template.fillTogether (unlines lines) values = endLf (lines.map (filledLine values)) := by
  rw [Template.fillTogether, items_unlines, List.flatMap_assoc, endLf, List.flatMap_map]
  refine List.flatMap_congr fun line _ => ?_
  rw [lineItems, List.flatMap_append]
  rfl

/-- The members that the lines of a template declare when its places are filled. -/
def declared (values : List (String × List Char)) (lines : List String) : List Member :=
  (lines.map (filledLine values)).filterMap Member.ofLine?

/-- A line that is no declaration whatever is put into its places: they are too far behind. -/
def staysQuiet (line : List Char) : Bool :=
  Member.isQuiet line && (line.take 2).all (· != '\x7b')

theorem ofLine?_of_staysQuiet {line : List Char} (h : staysQuiet line = true) :
    Member.ofLine? (Template.fillTogether line values) = none := by
  rw [staysQuiet, Bool.and_eq_true, List.all_eq_true] at h
  have hbrace : '\x7b' ∉ line.take 2 := fun hmem => absurd (h.2 _ hmem) (by decide)
  refine Member.ofLine?_of_isQuiet ?_
  match line, h.1, hbrace with
  | [], _, _ => rfl
  | [a], hquiet, hbrace =>
    have hfill := Template.fillTogether_append (s := [a]) hbrace [] values
    rw [List.append_nil] at hfill
    rw [hfill]
    exact hquiet
  | a :: b :: r, hquiet, hbrace =>
    have hfill := Template.fillTogether_append (s := [a, b]) hbrace r values
    rw [List.cons_append, List.singleton_append] at hfill
    rw [hfill]
    exact hquiet

variable {line : String} {s : List Char} {rest : List String} {ms : List Member}

theorem declared_quiet (hline : line = String.ofList s) (hs : staysQuiet s = true)
    (h : declared values rest = ms) : declared values (line :: rest) = ms := by
  subst hline
  rw [declared, List.map_cons, List.filterMap_cons_none, ← declared, h]
  rw [filledLine, String.toList_ofList, ofLine?_of_staysQuiet hs]

/-- A line without places. -/
theorem declared_plain {m : Member} (hline : line = String.ofList s)
    (hs : Template.items s = s.map .char) (hm : Member.ofLine? s = some m)
    (h : declared values rest = ms) : declared values (line :: rest) = m :: ms := by
  subst hline
  have hfill : Template.fillTogether s values = s := by
    rw [Template.fillTogether, hs, Template.flatMap_filled_map_char]
  rw [declared, List.map_cons, List.filterMap_cons_some (b := m), ← declared, h]
  rw [filledLine, String.toList_ofList, hfill, hm]

theorem fillTogether_of_items {front back value : List Char} {n : String}
    (hs : Template.items s = front.map .char ++ .place n :: back.map .char)
    (hvalue : values.lookup n = some value) :
    Template.fillTogether s values = front ++ value ++ back := by
  rw [Template.fillTogether, hs, List.flatMap_append, List.flatMap_cons,
    Template.flatMap_filled_map_char, Template.flatMap_filled_map_char, Template.Item.filled,
    hvalue, List.append_assoc]
  rfl

/-- A line with the place of a field's name. -/
theorem declared_field (front : List Char) {n : String} {value : List Char}
    (hline : line = String.ofList s)
    (hs : Template.items s = front.map .char ++ .place n :: [';'].map .char)
    (hfront : Member.isFront front = true) (hvalue : values.lookup n = some value)
    (hname : ∀ c ∈ value, c.isAlphanum = true) (h : declared values rest = ms) :
    declared values (line :: rest) = .field value :: ms := by
  subst hline
  rw [declared, List.map_cons, List.filterMap_cons_some (b := .field value), ← declared, h]
  rw [filledLine, String.toList_ofList, fillTogether_of_items hs hvalue,
    Member.ofLine?_field hfront hname]

/-- A line with the place of a method's name, which may go on. -/
theorem declared_method (front more r : List Char) {n : String} {value : List Char}
    {types : List (List Char)} (hline : line = String.ofList s)
    (hs : Template.items s = front.map .char ++ .place n :: (more ++ '(' :: r).map .char)
    (hfront : Member.isFront front = true) (hmore : more.all Char.isAlphanum = true)
    (htypes : Member.typesOf (r.takeWhile (· != ')')) = types)
    (hvalue : values.lookup n = some value) (hname : ∀ c ∈ value, c.isAlphanum = true)
    (h : declared values rest = ms) :
    declared values (line :: rest) = .method (value ++ more) types :: ms := by
  subst hline htypes
  have hall : ∀ c ∈ value ++ more, c.isAlphanum = true := by
    intro c hc
    rcases List.mem_append.mp hc with hc | hc
    · exact hname c hc
    · exact List.all_eq_true.mp hmore c hc
  rw [declared, List.map_cons, List.filterMap_cons_some (b := .method (value ++ more) _),
    ← declared, h]
  rw [filledLine, String.toList_ofList, fillTogether_of_items hs hvalue, ← List.append_assoc,
    List.append_assoc front, Member.ofLine?_method hfront hall]

/-! ## The members of a class -/

/-- The methods of the runtime. -/
def runtimeMembers : List Member :=
  [.method "scaleAndRecycle".toList ["Bitmap".toList, "int".toList, "int".toList],
   .method "smoothScaleAndRecycle".toList ["Bitmap".toList, "int".toList, "int".toList],
   .method "makeImmutableAndRecycle".toList ["Bitmap".toList],
   .method "bitmapFromUrlsafeBase64".toList
     ["String".toList, "int".toList, "int".toList, "Rect".toList],
   .method "ninePatchWrapperFromUrlsafeBase64".toList ["String".toList, "int".toList]]

theorem declared_prelude : declared values preludeLines = runtimeMembers := by
  dsimp only [preludeLines, runtimeMembers]
  -- Most lines are done with after two characters; only the five declarations are read to the end.
  repeat first
    | refine declared_quiet rfl (by decide) ?_
    | refine declared_plain rfl (by decide +kernel) (by decide +kernel) ?_
  rfl

/-- The members that an image has in the class. -/
def imageMembers (i : Image) : List Member :=
  let field := i.identifier.fieldName.toList
  let getter := i.identifier.accessorName.toList
  match i.format with
  | .bitmap => [.field field, .method getter ["DisplayMetrics".toList]]
  | .ninePatch =>
    [.field field, .method (getter ++ "Wrapper".toList) ["DisplayMetrics".toList],
     .method (getter ++ "Drawable".toList) ["Resources".toList]]

/-- The lines of the accessor template of a format. -/
def accessorLines : ImageFormat → List String
  | .bitmap => bitmapLines
  | .ninePatch => ninePatchLines

theorem declared_accessor (i : Image) :
    declared (accessorValues i) (accessorLines i.format) = imageMembers i := by
  have hfield : ∀ c ∈ i.identifier.fieldName.toList, c.isAlphanum = true :=
    fun _ => Identifier.isAlphanum_of_mem_fieldName
  have hgetter : ∀ c ∈ i.identifier.accessorName.toList, c.isAlphanum = true :=
    fun _ => Identifier.isAlphanum_of_mem_accessorName
  unfold imageMembers
  cases i.format with
  | bitmap =>
    dsimp only [accessorLines, bitmapLines]
    refine declared_quiet rfl (by decide) ?_
    refine declared_field "\tprivate static volatile Bitmap ".toList rfl (by decide +kernel)
      (by decide +kernel) (n := "field") rfl hfield ?_
    rw [← List.append_nil i.identifier.accessorName.toList]
    refine declared_method "\tpublic static Bitmap ".toList []
      "DisplayMetrics metrics) \x7b".toList rfl (by decide +kernel) (by decide +kernel) (by decide)
      (by decide +kernel) (n := "getter") rfl hgetter ?_
    repeat refine declared_quiet rfl (by decide) ?_
    rfl
  | ninePatch =>
    dsimp only [accessorLines, ninePatchLines]
    refine declared_quiet rfl (by decide) ?_
    refine declared_field "\tprivate static volatile NinePatchWrapper ".toList rfl
      (by decide +kernel) (by decide +kernel) (n := "field") rfl hfield ?_
    refine declared_method "\tprivate static NinePatchWrapper ".toList "Wrapper".toList
      "DisplayMetrics metrics) \x7b".toList rfl (by decide +kernel) (by decide +kernel) (by decide)
      (by decide +kernel) (n := "getter") rfl hgetter ?_
    repeat refine declared_quiet rfl (by decide) ?_
    refine declared_method "\tpublic static NinePatchDrawable ".toList "Drawable".toList
      "Resources resources) \x7b".toList rfl (by decide +kernel) (by decide +kernel) (by decide)
      (by decide +kernel) (n := "getter") rfl hgetter ?_
    repeat refine declared_quiet rfl (by decide) ?_
    rfl

/-! ## The text of a class -/

/-- The lines of the class. -/
def imageLines (c : ClassName) (catalog : Catalog Image) (f : Fingerprint) : List (List Char) :=
  f.markerLine.toList ::
    ((c.package?.map fun p => ["package ".toList ++ p.toList ++ [';']]).getD [] ++
      preludeLines.map (filledLine [("class_name", c.simpleName.toList)]) ++
      (catalog.assets.flatMap fun i =>
        (accessorLines i.format).map (filledLine (accessorValues i))) ++
      [['\x7d']])

theorem images_eq_endLf (c : ClassName) (catalog : Catalog Image) (f : Fingerprint) :
    images c catalog f = endLf (imageLines c catalog f) := by
  have hclose : "\x7d\n".toList = endLf [['\x7d']] := by decide
  have hpackage : (c.package?.map packageLine).getD [] =
      endLf ((c.package?.map fun p => ["package ".toList ++ p.toList ++ [';']]).getD []) := by
    have hend : ";\n".toList = [';'] ++ ['\n'] := by decide
    unfold packageLine
    rw [hend]
    generalize "package ".toList = package
    cases c.package? <;> simp [endLf]
  have haccessor : ∀ i : Image,
      Template.fillTogether (accessorTemplate i.format) (accessorValues i) =
        endLf ((accessorLines i.format).map (filledLine (accessorValues i))) := by
    intro i
    cases i.format <;> exact fillTogether_unlines _
  rw [images_eq, imageLines, endLf_cons, endLf_append, endLf_append, endLf_append, endLf_flatMap,
    hclose, hpackage, prelude, fillTogether_unlines]
  simp only [haccessor]

/-- Whether a line is not broken. -/
def isOneLine (line : List Char) : Bool := line.all (· != '\n')

theorem isOneLine_prelude : ∀ line ∈ preludeLines, isOneLine line.toList = true := by
  dsimp only [preludeLines]
  repeat refine forall_lines_cons rfl (by decide +kernel) ?_
  exact List.forall_mem_nil _

theorem isOneLine_accessor (format : ImageFormat) :
    ∀ line ∈ accessorLines format, isOneLine line.toList = true := by
  cases format with
  | bitmap =>
    dsimp only [accessorLines, bitmapLines]
    repeat refine forall_lines_cons rfl (by decide +kernel) ?_
    exact List.forall_mem_nil _
  | ninePatch =>
    dsimp only [accessorLines, ninePatchLines]
    repeat refine forall_lines_cons rfl (by decide +kernel) ?_
    exact List.forall_mem_nil _

theorem lf_notMem_filledLines {lines : List String}
    (h : ∀ line ∈ lines, isOneLine line.toList = true) (hvalues : ∀ v ∈ values, '\n' ∉ v.2) :
    ∀ line ∈ lines.map (filledLine values), '\n' ∉ line := by
  intro line hline hlf
  obtain ⟨template, htemplate, rfl⟩ := List.mem_map.mp hline
  rcases Template.mem_fillTogether hlf with hlf | ⟨v, hv, hlf⟩
  · exact absurd (List.all_eq_true.mp (h template htemplate) _ hlf) (by decide)
  · exact hvalues v hv hlf

theorem lf_notMem_imageLines {c : ClassName} {catalog : Catalog Image} {f : Fingerprint}
    (hf : '\n' ∉ f.hex.toList) : ∀ line ∈ imageLines c catalog f, '\n' ∉ line := by
  have hpackage : ∀ line ∈ (c.package?.map fun p =>
      ["package ".toList ++ p.toList ++ [';']]).getD [], '\n' ∉ line := by
    cases hp : c.package? with
    | none => exact List.forall_mem_nil _
    | some p => exact List.forall_mem_singleton.mpr (lf_notMem_package hp)
  have hprelude : ∀ line ∈ preludeLines.map (filledLine [("class_name", c.simpleName.toList)]),
      '\n' ∉ line := by
    refine lf_notMem_filledLines isOneLine_prelude fun v hv => ?_
    rw [List.mem_singleton.mp hv]
    exact lf_notMem_simpleName c
  have haccessor : ∀ i : Image, ∀ line ∈
      (accessorLines i.format).map (filledLine (accessorValues i)), '\n' ∉ line := fun i =>
    lf_notMem_filledLines (isOneLine_accessor i.format)
      (notMem_accessorValues (by decide) (by decide) (by decide) i)
  intro line hline
  rw [imageLines, List.mem_cons, List.mem_append, List.mem_append, List.mem_append,
    List.mem_flatMap, List.mem_singleton] at hline
  rcases hline with rfl | ((hline | hline) | ⟨i, -, hline⟩) | rfl
  · exact lf_notMem_markerLine hf
  · exact hpackage line hline
  · exact hprelude line hline
  · exact haccessor i line hline
  · decide

/-- The members of a class are the runtime's and those of the images. -/
theorem members_images (c : ClassName) (catalog : Catalog Image) {f : Fingerprint}
    (hf : '\n' ∉ f.hex.toList) :
    members (images c catalog f) = runtimeMembers ++ catalog.assets.flatMap imageMembers := by
  have hmarker : Member.ofLine? f.markerLine.toList = none := by
    refine Member.ofLine?_of_isQuiet ?_
    rw [Fingerprint.toList_markerLine]
    rfl
  have hpackage : ((c.package?.map fun p =>
      ["package ".toList ++ p.toList ++ [';']]).getD []).filterMap Member.ofLine? = [] := by
    cases c.package? with
    | none => rfl
    | some p =>
      refine List.filterMap_eq_nil_iff.mpr fun line hline => Member.ofLine?_of_isQuiet ?_
      rw [List.mem_singleton.mp hline]
      rfl
  have hfilled : ∀ values lines, (lines.map (filledLine values)).filterMap Member.ofLine? =
      declared values lines := fun _ _ => rfl
  rw [images_eq_endLf, members_endLf (lf_notMem_imageLines hf), imageLines,
    List.filterMap_cons_none hmarker, List.filterMap_append, List.filterMap_append,
    List.filterMap_append, hpackage, hfilled, declared_prelude, List.filterMap_flatMap]
  simp only [hfilled, declared_accessor]
  exact List.append_nil _

/-! ## Images with the same members -/

/-- The fields have one name: what one keeps in front of its first underscore is made of words that
the other one has behind it. -/
def SameField (i j : Identifier) : Prop :=
  (∃ us, j.head = i.head ++ Identifier.caps us ∧ i.tailWords = us ++ j.tailWords) ∨
    ∃ us, i.head = j.head ++ Identifier.caps us ∧ j.tailWords = us ++ i.tailWords

/-- The word that the accessor which a nine-patch keeps for itself has more. -/
def wrapperWord : List Char := ['w', 'r', 'a', 'p', 'p', 'e', 'r']

/-- Two methods have one name and take the same. -/
def SameMethod (i j : Image) : Prop :=
  match i.format, j.format with
  | .bitmap, .bitmap => i.identifier.nameWords = j.identifier.nameWords
  | .ninePatch, .ninePatch => i.identifier.nameWords = j.identifier.nameWords
  | .ninePatch, .bitmap => j.identifier.nameWords = i.identifier.nameWords ++ [wrapperWord]
  | .bitmap, .ninePatch => i.identifier.nameWords = j.identifier.nameWords ++ [wrapperWord]

theorem sameField_iff {i j : Identifier} :
    SameField i j ↔ i.fieldName.toList = j.fieldName.toList := by
  rw [String.toList_inj, Identifier.fieldName_inj]
  rfl

example : (Identifier.sanitize "foo_bar").fieldName = (Identifier.sanitize "fooBar").fieldName := by
  decide +kernel

theorem accessorName_eq_iff {i j : Identifier} :
    i.accessorName.toList = j.accessorName.toList ↔ i.nameWords = j.nameWords := by
  rw [String.toList_inj, Identifier.accessorName_inj]

theorem accessorName_wrapper_iff {i j : Identifier} :
    i.accessorName.toList ++ "Wrapper".toList = j.accessorName.toList ↔
      j.nameWords = i.nameWords ++ [wrapperWord] := by
  have hword : Identifier.IsWord wrapperWord :=
    ⟨'w', ['r', 'a', 'p', 'p', 'e', 'r'], rfl, by decide, List.all_eq_true.mp (by decide)⟩
  have hcaps : "Wrapper".toList = Identifier.capitalize wrapperWord := by decide
  rw [hcaps, Identifier.accessorName_append_inj hword]

example : (Identifier.sanitize "foo_wrapper").nameWords =
    (Identifier.sanitize "foo").nameWords ++ [wrapperWord] := by
  decide +kernel

/-- Of two images some members are the same just when the fields are or some methods are. -/
theorem disjoint_imageMembers_iff {i j : Image} :
    (imageMembers i).Disjoint (imageMembers j) ↔
      ¬ SameField i.identifier j.identifier ∧ ¬ SameMethod i j := by
  have htypes : "DisplayMetrics".toList ≠ "Resources".toList := by decide
  have hwrapper := @accessorName_wrapper_iff
  rw [sameField_iff, SameMethod, imageMembers, imageMembers]
  -- Of the fixed texts no more matters than that the two types differ.
  generalize "DisplayMetrics".toList = metrics at htypes
  generalize "Resources".toList = resources at htypes
  generalize "Wrapper".toList = wrapper at hwrapper
  generalize "Drawable".toList = drawable
  cases i.format with
  | bitmap =>
    cases j.format with
    | bitmap => simp [accessorName_eq_iff, eq_comm]
    | ninePatch =>
      have hback : i.identifier.accessorName.toList = j.identifier.accessorName.toList ++ wrapper ↔
          i.identifier.nameWords = j.identifier.nameWords ++ [wrapperWord] :=
        eq_comm.trans hwrapper
      simp [htypes, hback, eq_comm]
  | ninePatch =>
    cases j.format with
    | bitmap => simp [htypes, hwrapper, eq_comm]
    | ninePatch => simp [htypes, accessorName_eq_iff, eq_comm]

theorem nodup_imageMembers (i : Image) : (imageMembers i).Nodup := by
  have htypes : "DisplayMetrics".toList ≠ "Resources".toList := by decide
  rw [imageMembers]
  generalize "DisplayMetrics".toList = metrics at htypes
  generalize "Resources".toList = resources at htypes
  generalize "Wrapper".toList = wrapper
  generalize "Drawable".toList = drawable
  cases i.format with
  | bitmap => simp
  | ninePatch => simp [htypes]

/-- A field, or a method whose name begins like that of an accessor. -/
def mayBeOfImage : Member → Bool
  | .field _ => true
  | .method name _ => name.head? == some 'g'

theorem mayBeOfImage_of_mem {i : Image} : ∀ m ∈ imageMembers i, mayBeOfImage m = true := by
  obtain ⟨rest, hgetter⟩ : ∃ rest, i.identifier.accessorName.toList = 'g' :: rest :=
    ⟨_, Identifier.toList_accessorName i.identifier⟩
  -- What is added to the accessor of a nine-patch does not touch its first letter.
  rw [imageMembers, hgetter]
  cases i.format with
  | bitmap => exact List.forall_mem_cons.mpr ⟨rfl, List.forall_mem_singleton.mpr rfl⟩
  | ninePatch =>
    exact List.forall_mem_cons.mpr
      ⟨rfl, List.forall_mem_cons.mpr ⟨rfl, List.forall_mem_singleton.mpr rfl⟩⟩

theorem disjoint_runtimeMembers (i : Image) : runtimeMembers.Disjoint (imageMembers i) := by
  have hruntime : ∀ m ∈ runtimeMembers, mayBeOfImage m = false := by decide +kernel
  intro m hm hmem
  have hlike := mayBeOfImage_of_mem m hmem
  rw [hruntime m hm] at hlike
  cases hlike

theorem nodup_members_iff (c : ClassName) (catalog : Catalog Image) {f : Fingerprint}
    (hf : '\n' ∉ f.hex.toList) :
    (members (images c catalog f)).Nodup ↔ catalog.assets.Pairwise fun i j =>
      ¬ SameField i.identifier j.identifier ∧ ¬ SameMethod i j := by
  have hruntime : runtimeMembers.Nodup := by decide +kernel
  have hapart : runtimeMembers.Disjoint (catalog.assets.flatMap imageMembers) := by
    intro m hm hmem
    obtain ⟨i, -, hi⟩ := List.mem_flatMap.mp hmem
    exact disjoint_runtimeMembers i hm hi
  rw [members_images c catalog hf, List.nodup_append', List.nodup_flatMap]
  constructor
  · rintro ⟨-, ⟨-, hdisjoint⟩, -⟩
    exact hdisjoint.imp disjoint_imageMembers_iff.mp
  · intro h
    refine ⟨hruntime, ⟨fun i _ => nodup_imageMembers i, ?_⟩, hapart⟩
    exact h.imp disjoint_imageMembers_iff.mpr

/-- **The members of a class of images are distinct just when no two images have the same field or
the same method.** -/
theorem members_distinct_iff (c : ClassName) (catalog : Catalog Image) (kind : ArtifactKind)
    (records : List Fingerprint.Record) :
    members (images c catalog (.ofRecords kind records)) =
      runtimeMembers ++ catalog.assets.flatMap imageMembers ∧
    ((members (images c catalog (.ofRecords kind records))).Nodup ↔
      catalog.assets.Pairwise fun i j =>
        ¬ SameField i.identifier j.identifier ∧ ¬ SameMethod i j) := by
  have hhex := Fingerprint.lf_notMem_hex kind records
  exact ⟨members_images c catalog hhex, nodup_members_iff c catalog hhex⟩

namespace Cases

/-- Two images whose names differ in case only. -/
def files : Memory :=
  { Memory.empty with
    files := [(⟨"/a/Foo.png"⟩, [0]), (⟨"/a/foo.png"⟩, [1])]
    ordered := by decide +kernel }

def className : ClassName := Pair.className

def upper : Image := ⟨.sanitize "Foo", "Foo.png", [0], .unspecified, .bitmap⟩

def lower : Image := ⟨.sanitize "foo", "foo.png", [1], .unspecified, .bitmap⟩

def catalog : Catalog Image := .ofAscending [upper, lower] (by decide +kernel)

end Cases

/-- The scan keeps the two images apart, but they have one accessor. -/
theorem members_not_distinct :
    (Scan.images Cases.files ⟨"/a"⟩ .builtin).result = .ok Cases.catalog ∧
      (Cases.catalog.assets.map Image.identifier).Nodup ∧
      ¬ (members (images Cases.className Cases.catalog
        (.ofImages imageSignature Cases.className false Cases.catalog))).Nodup := by
  refine ⟨rfl, by decide +kernel, fun hnodup => ?_⟩
  have hhex : '\n' ∉ (Fingerprint.ofImages imageSignature Cases.className false
      Cases.catalog).hex.toList := Fingerprint.lf_notMem_hex _ _
  have hpair := (nodup_members_iff Cases.className Cases.catalog hhex).mp hnodup
  have hsame : SameMethod Cases.upper Cases.lower := by
    show Identifier.words _ = Identifier.words _
    decide +kernel
  exact (List.pairwise_pair.mp hpair).2 hsame

end Emit

end AssetPack
