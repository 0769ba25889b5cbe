import AssetPack.Proofs.Emit.Members
import AssetPack.Proofs.Emit.Shaders
import AssetPack.Proofs.Glsl.Pieces
import AssetPack.Proofs.Scan

/-!
# Which members have a name of the language

A name of the language does not begin with a digit, and is not empty. Nothing sees to that: an
identifier begins as its file name does, and a field begins with the first letter or digit of what
is left of the file name, if there is one. So the constant of `1.fsh` and the field of `1.png` have
no name of the language, and the field of `-hdpi.png` has no name at all (`names_not_valid`). Methods
are safe, since they all begin with a word of their own.

`names_valid_iff` reads the members off the emitted text and says for which files this happens.
-/

set_option autoImplicit false

namespace AssetPack

open Text Java

/-! ## The first character of a name -/

/-- There is a first character, and it is no digit. -/
def NoDigitFirst (first : Option Char) : Prop := ∃ c, first = some c ∧ c.isDigit = false

namespace Java

theorem isNamePart_of_isWordChar {c : Char} (hc : isWordChar c = true) : isNamePart c = true := by
  unfold isNamePart
  unfold isWordChar at hc
  rw [hc, Bool.true_or]

theorem isNameStart_iff_of_isWordChar {c : Char} (hc : isWordChar c = true) :
    isNameStart c = true ↔ c.isDigit = false :=
  Identifier.of_isWordChar
    (P := fun c => isWordChar c = true → (isNameStart c = true ↔ c.isDigit = false))
    (by decide +kernel) hc hc

theorem isName_iff_of_isWordChar {s : List Char} (hs : ∀ c ∈ s, isWordChar c = true) :
    isName s = true ↔ NoDigitFirst s.head? := by
  cases s with
  | nil => simp [isName, NoDigitFirst]
  | cons c r =>
    rw [List.forall_mem_cons] at hs
    have hrest : r.all isNamePart = true :=
      List.all_eq_true.mpr fun d hd => isNamePart_of_isWordChar (hs.2 d hd)
    simp [isName, hrest, isNameStart_iff_of_isWordChar hs.1, NoDigitFirst]

end Java

namespace Identifier

theorem isDigit_sanitizeChar (c : Char) : (sanitizeChar c).isDigit = c.isDigit := by
  unfold sanitizeChar
  split
  · rfl
  · rename_i hc
    rw [Char.isAlphanum, Bool.or_eq_true, not_or] at hc
    rw [Bool.eq_false_iff.mpr hc.2]
    rfl

theorem isName_sanitize_iff {raw : String} :
    isName (sanitize raw).name.toList = true ↔ NoDigitFirst raw.toList.head? := by
  rw [isName_iff_of_isWordChar (sanitize raw).isWord, sanitize, String.toList_ofList,
    List.head?_map]
  cases raw.toList.head? <;> simp [NoDigitFirst, isDigit_sanitizeChar]

/-- The first character of an identifier that is no underscore was a letter or digit before. -/
theorem find?_sanitize (raw : String) :
    (sanitize raw).name.toList.find? (· != '_') = raw.toList.find? Char.isAlphanum := by
  rw [sanitize, String.toList_ofList]
  induction raw.toList with
  | nil => rfl
  | cons c r ih =>
    rw [List.map_cons, sanitizeChar]
    cases hc : c.isAlphanum with
    | true =>
      have hne : c ≠ '_' := by
        rintro rfl
        exact absurd hc (by decide)
      rw [if_pos rfl, List.find?_cons_of_pos (by simpa using hne), List.find?_cons_of_pos hc]
    | false =>
      rw [if_neg (by simp), List.find?_cons_of_neg (by simp), List.find?_cons_of_neg (by simp [hc]),
        ih]

theorem head?_title {s : List Char} (hs : ∀ c ∈ s, isWordChar c = true) :
    (title false s).head? = (s.find? (· != '_')).map Char.toUpper := by
  induction s with
  | nil => rfl
  | cons c r ih =>
    rw [List.forall_mem_cons] at hs
    cases halpha : c.isAlpha with
    | true =>
      have hne : c ≠ '_' := by
        rintro rfl
        exact absurd halpha (by decide)
      rw [title_cons_alpha halpha, List.find?_cons_of_pos (by simpa using hne)]
      rfl
    | false =>
      rw [title_cons_other halpha]
      split
      · rename_i heq
        rw [List.find?_cons_of_neg (by simp [heq]), ih hs.2]
      · rename_i hne
        rw [List.find?_cons_of_pos (by simpa using hne), List.head?_cons, Option.map_some,
          toUpper_of_not_isAlpha hs.1 halpha]

/-- A field begins with the first letter or digit of the identifier, and may have it as a capital. -/
theorem head?_fieldName (i : Identifier) :
    i.fieldName.toList.head? = i.name.toList.find? (· != '_') ∨
      i.fieldName.toList.head? = (i.name.toList.find? (· != '_')).map Char.toUpper := by
  rw [fieldName, String.toList_ofList, camelCase_eq]
  have hword := i.isWord
  cases hname : i.name.toList with
  | nil => exact .inl rfl
  | cons c r =>
    rw [hname] at hword
    by_cases hc : c = '_'
    · right
      rw [List.takeWhile_cons_of_neg (by simp [hc]), List.dropWhile_cons_of_neg (by simp [hc]),
        List.nil_append, head?_title hword]
    · left
      rw [List.takeWhile_cons_of_pos (by simpa using hc), List.find?_cons_of_pos (by simpa using hc)]
      rfl

theorem isName_fieldName_iff {raw : String} :
    isName (sanitize raw).fieldName.toList = true ↔
      NoDigitFirst (raw.toList.find? Char.isAlphanum) := by
  have hword : ∀ c ∈ (sanitize raw).fieldName.toList, isWordChar c = true :=
    fun _ hc => isWordChar_of_isAlphanum (isAlphanum_of_mem_fieldName hc)
  rw [isName_iff_of_isWordChar hword]
  rcases head?_fieldName (sanitize raw) with hfirst | hfirst <;> rw [hfirst, find?_sanitize]
  cases hfind : raw.toList.find? Char.isAlphanum with
  | none => rfl
  | some c =>
    have hc := isWordChar_of_isAlphanum (List.find?_some hfind)
    have hdigit : c.toUpper.isDigit = c.isDigit :=
      of_isWordChar (P := fun c => c.toUpper.isDigit = c.isDigit) (by decide +kernel) hc
    simp [NoDigitFirst, hdigit]

/-- An accessor is a name, with or without more behind it. -/
theorem isName_accessorName_append (i : Identifier) (more : List Char)
    (hmore : more.all isWordChar = true) : isName (i.accessorName.toList ++ more) = true := by
  have hword : ∀ c ∈ i.accessorName.toList ++ more, isWordChar c = true := by
    intro c hc
    rcases List.mem_append.mp hc with hc | hc
    · exact isWordChar_of_isAlphanum (isAlphanum_of_mem_accessorName hc)
    · exact List.all_eq_true.mp hmore c hc
  rw [isName_iff_of_isWordChar hword, toList_accessorName]
  exact ⟨'g', rfl, by decide⟩

end Identifier

namespace Emit

/-! ## The constants of a class of shaders -/

/-- The name of the constant that a line declares. -/
def constant? (line : List Char) : Option (List Char) :=
  ("  public static final String ".toList.isPrefixOf? line).map (List.takeWhile (· != ' '))

/-- The names of the constants that a class declares, in order. -/
def constants (text : List Char) : List (List Char) := (splitLf text).filterMap constant?

theorem constant?_of_head? {line : List Char} (h : line.head? ≠ some ' ') :
    constant? line = none := by
  unfold constant?
  cases hrest : "  public static final String ".toList.isPrefixOf? line with
  | none => rfl
  | some rest =>
    have hline := List.isPrefixOf?_eq_some_iff_append_eq.mp hrest
    rw [← hline] at h
    exact absurd rfl h

theorem constant?_constantText (s : Shader) (value : List Char) :
    constant? (constantText s value) = some s.identifier.name.toList := by
  have hname : ∀ c ∈ s.identifier.name.toList, (c != ' ') = true := by
    intro c hc
    rw [bne_iff_ne]
    rintro rfl
    exact absurd (s.identifier.isWord _ hc) (by decide)
  have hprefix : ∀ front rest : List Char, front.isPrefixOf? (front ++ rest) = some rest :=
    fun _ _ => List.isPrefixOf?_eq_some_iff_append_eq.mpr rfl
  have hequals : " = ".toList = [' ', '=', ' '] := by decide
  unfold constant? constantText
  rw [hequals]
  generalize "  public static final String ".toList = words
  rw [List.append_assoc, List.append_assoc, List.append_assoc, hprefix, Option.map_some,
    List.takeWhile_append_of_pos hname]
  simp

/-- The constants of a class are named after the identifiers of its shaders. -/
theorem constants_shaders {mode : BuildMode} {catalog : Catalog Shader} {c : ClassName}
    {f : Fingerprint} (hf : '\n' ∉ f.hex.toList) {text : List Char}
    (h : (shaders c mode catalog f).result = .ok text) :
    constants text = catalog.assets.map fun s => s.identifier.name.toList := by
  have hfits := fits_of_shaders h
  rw [shaders_of_fits hfits] at h
  obtain rfl := Except.ok.inj h
  have hlf : ∀ line ∈ shaderLines c f (constantTexts mode catalog.assets), '\n' ∉ line := by
    have htail := lf_notMem_shaderLines (c := c) (f := f) (lf_notMem_constantTexts hfits)
    exact List.forall_mem_cons.mpr ⟨lf_notMem_markerLine hf, htail⟩
  have hmarker : constant? f.markerLine.toList = none := by
    refine constant?_of_head? ?_
    rw [Fingerprint.toList_markerLine]
    simp
  have hpackage : ((c.package?.map fun p =>
      ["package ".toList ++ p.toList ++ [';'], []]).getD []).filterMap constant? = [] := by
    cases c.package? with
    | none => rfl
    | some p =>
      refine List.filterMap_eq_nil_iff.mpr fun line hline => constant?_of_head? ?_
      rcases List.mem_cons.mp hline with rfl | hline
      · simp
      · rw [List.mem_singleton.mp hline]
        simp
  have hclass : constant? ("final class ".toList ++ c.simpleName.toList ++ [' ', '\x7b']) = none :=
    constant?_of_head? (by simp)
  have hclose : constant? ['\x7d'] = none := constant?_of_head? (by simp)
  have hnil : constant? [] = none := constant?_of_head? (by simp)
  have hconstants : (constantTexts mode catalog.assets).filterMap constant? =
      catalog.assets.map fun s => s.identifier.name.toList := by
    rw [constantTexts, List.filterMap_map, ← List.filterMap_eq_map]
    exact List.filterMap_congr fun s _ => constant?_constantText s _
  rw [constants, splitLf_endLf hlf, List.filterMap_append, shaderLines,
    List.filterMap_cons_none hmarker, List.filterMap_append, List.filterMap_append, hpackage,
    List.filterMap_cons_none hclass, hconstants]
  simp [hclose, hnil]

/-! ## The members of a class of images -/

/-- The names of the fields among some members. -/
def fields (ms : List Member) : List (List Char) :=
  ms.filterMap fun
    | .field name => some name
    | .method _ _ => none

theorem fields_append (ms more : List Member) : fields (ms ++ more) = fields ms ++ fields more :=
  List.filterMap_append

theorem fields_imageMembers (i : Image) :
    fields (imageMembers i) = [i.identifier.fieldName.toList] := by
  unfold imageMembers
  cases i.format <;> rfl

theorem fields_flatMap_imageMembers (list : List Image) :
    fields (list.flatMap imageMembers) = list.map fun i => i.identifier.fieldName.toList := by
  induction list with
  | nil => rfl
  | cons i rest ih =>
    rw [List.flatMap_cons, fields_append, fields_imageMembers, ih]
    rfl

theorem isName_of_method_mem {i : Image} {name : List Char} {types : List (List Char)}
    (h : .method name types ∈ imageMembers i) : isName name = true := by
  have hgetter : isName i.identifier.accessorName.toList = true := by
    have hname := i.identifier.isName_accessorName_append [] rfl
    rwa [List.append_nil] at hname
  have hwrapper := i.identifier.isName_accessorName_append "Wrapper".toList (by decide)
  have hdrawable := i.identifier.isName_accessorName_append "Drawable".toList (by decide)
  unfold imageMembers at h
  cases hformat : i.format with
  | bitmap =>
    rw [hformat] at h
    simp only [List.mem_cons, List.not_mem_nil, or_false, reduceCtorEq, false_or,
      Member.method.injEq] at h
    rw [h.1]
    exact hgetter
  | ninePatch =>
    rw [hformat] at h
    simp only [List.mem_cons, List.not_mem_nil, or_false, reduceCtorEq, false_or,
      Member.method.injEq] at h
    rcases h with ⟨rfl, -⟩ | ⟨rfl, -⟩
    · exact hwrapper
    · exact hdrawable

theorem isName_of_method_mem_runtime {name : List Char} {types : List (List Char)}
    (h : .method name types ∈ runtimeMembers) : isName name = true := by
  have hall : ∀ m ∈ runtimeMembers, ∀ name types, m = Member.method name types →
      isName name = true := by
    unfold runtimeMembers
    simp only [List.forall_mem_cons, Member.method.injEq]
    refine ⟨?_, ?_, ?_, ?_, ?_, List.forall_mem_nil _⟩ <;>
    · rintro name types ⟨rfl, -⟩
      decide
  exact hall _ h name types rfl

/-! ## The theorem -/

/-- What is left of the name of an image's file: the base name without the density suffix. -/
def IsLeftOf (table : DensityTable) (fileName rest : String) : Prop :=
  ∃ base, Scan.imageBase? fileName = some base ∧ rest = (table.split base).1

/-- **Which members have a name of the language.** Constants are named after the files of the
shaders, and such a name is one of the language just when the file name does not begin with a digit.
Methods always have a name of the language, also when the images were crunched. The field of an
image has one just when there is a letter or digit in what is left of the name of the file, and the
first one is a letter. -/
theorem names_valid_iff {σ : Type} [FileSystem σ] (fs : σ) (dir : Path) (c : ClassName)
    (kind : ArtifactKind) (records : List Fingerprint.Record) :
    (∀ extensions mode catalog text,
      (Scan.shaders fs dir extensions).result = .ok catalog →
      (shaders c mode catalog (.ofRecords kind records)).result = .ok text →
      (constants text = catalog.assets.map fun s => s.identifier.name.toList) ∧
      ∀ s ∈ catalog.assets,
        isName s.identifier.name.toList = true ↔ NoDigitFirst s.fileName.toList.head?) ∧
    ∀ table catalog (final : Catalog Image), (Scan.images fs dir table).result = .ok catalog →
      final.assets.map Image.identifier = catalog.assets.map Image.identifier →
      (∀ name types, .method name types ∈ members (images c final (.ofRecords kind records)) →
        isName name = true) ∧
      (fields (members (images c final (.ofRecords kind records))) =
        catalog.assets.map fun i => i.identifier.fieldName.toList) ∧
      ∀ i ∈ catalog.assets, ∃ rest, IsLeftOf table i.fileName rest ∧
        (isName i.identifier.fieldName.toList = true ↔
          NoDigitFirst (rest.toList.find? Char.isAlphanum)) := by
  have hhex := Fingerprint.lf_notMem_hex kind records
  constructor
  · intro extensions mode catalog text hscan htext
    refine ⟨constants_shaders hhex htext, ?_⟩
    intro s hs
    rw [Scan.identifier_of_mem_shaders hscan hs]
    exact Identifier.isName_sanitize_iff
  · intro table catalog final hscan hfinal
    rw [members_images c final hhex]
    refine ⟨?_, ?_, ?_⟩
    · intro name types hmem
      rcases List.mem_append.mp hmem with hmem | hmem
      · exact isName_of_method_mem_runtime hmem
      · obtain ⟨i, -, hi⟩ := List.mem_flatMap.mp hmem
        exact isName_of_method_mem hi
    · have hruntime : fields runtimeMembers = [] := rfl
      have hnames := congrArg (List.map fun i : Identifier => i.fieldName.toList) hfinal
      rw [List.map_map, List.map_map] at hnames
      rw [fields_append, hruntime, List.nil_append, fields_flatMap_imageMembers]
      exact hnames
    · intro i hi
      obtain ⟨base, hbase, hidentifier⟩ := Scan.identifier_of_mem_images hscan hi
      refine ⟨(table.split base).1, ⟨base, hbase, rfl⟩, ?_⟩
      rw [hidentifier]
      exact Identifier.isName_fieldName_iff

namespace Numbered

/-- Two shaders without text and two images; one of the shaders has a name of the language. -/
def files : Memory :=
  { Memory.empty with
    files := [(⟨"/a/-hdpi.png"⟩, [0]), (⟨"/a/1.fsh"⟩, []), (⟨"/a/1.png"⟩, [1]),
      (⟨"/a/tap.fsh"⟩, [])]
    ordered := by decide +kernel }

def className : ClassName := ⟨["Assets"], by decide, by decide⟩

def fingerprint : Fingerprint := .ofRecords .shaders []

def numbered : Shader := ⟨.sanitize "1.fsh", "1.fsh", []⟩

def tap : Shader := ⟨.sanitize "tap.fsh", "tap.fsh", []⟩

def shaders : Catalog Shader := .ofAscending [numbered, tap] (by decide +kernel)

def images : Catalog Image :=
  .ofAscending [⟨.sanitize "", "-hdpi.png", [0], ⟨240⟩, .bitmap⟩,
    ⟨.sanitize "1", "1.png", [1], .unspecified, .bitmap⟩] (by decide +kernel)

theorem result_shaders : (Scan.shaders files ⟨"/a"⟩ ["fsh"]).result = .ok shaders := rfl

theorem result_images : (Scan.images files ⟨"/a"⟩ .builtin).result = .ok images := rfl

theorem exists_text : ∃ text, (Emit.shaders className .release shaders fingerprint).result =
    .ok text := by
  have hnil : Glsl.minify .release [] = [] := by
    rw [Glsl.minify, normalizeEnds, Glsl.stripComments, Glsl.pieces_nil]
    rfl
  have hfits : ∀ s : Shader, s.source = [] → Fits .release s := by
    intro s hs
    refine ⟨[], hs.symm, ?_⟩
    intro v hv
    rw [List.mem_singleton.mp hv, hnil]
    exact List.forall_mem_nil _
  refine ⟨_, shaders_of_fits ?_ className fingerprint⟩
  exact List.forall_mem_cons.mpr ⟨hfits _ rfl, List.forall_mem_singleton.mpr (hfits _ rfl)⟩

end Numbered

/-- The constant of `1.fsh` and the fields of both images have no name of the language. -/
theorem names_not_valid :
    ((Scan.shaders Numbered.files ⟨"/a"⟩ ["fsh"]).result = .ok Numbered.shaders ∧
      ∃ text, (shaders Numbered.className .release Numbered.shaders Numbered.fingerprint).result =
          .ok text ∧ ¬ ∀ name ∈ constants text, isName name = true) ∧
    (Scan.images Numbered.files ⟨"/a"⟩ .builtin).result = .ok Numbered.images ∧
      ∀ name ∈ fields (members (images Numbered.className Numbered.images Numbered.fingerprint)),
        isName name = false := by
  obtain ⟨text, htext⟩ := Numbered.exists_text
  refine ⟨⟨Numbered.result_shaders, text, htext, ?_⟩, Numbered.result_images, ?_⟩
  · rw [constants_shaders (Fingerprint.lf_notMem_hex _ _) htext]
    decide +kernel
  · rw [members_images Numbered.className Numbered.images (f := Numbered.fingerprint)
      (Fingerprint.lf_notMem_hex _ _)]
    decide +kernel

/-- The second shader has a name of the language and the first has none. The fields of the images are
empty and a digit. -/
theorem names_valid_iff_numbered :
    isName Numbered.tap.identifier.name.toList = true ∧
      ¬ isName Numbered.numbered.identifier.name.toList = true ∧
      fields (members (images Numbered.className Numbered.images Numbered.fingerprint)) =
        [[], ['1']] := by
  obtain ⟨text, htext⟩ := Numbered.exists_text
  obtain ⟨hshaders, himages⟩ := names_valid_iff Numbered.files ⟨"/a"⟩ Numbered.className
    .shaders []
  obtain ⟨-, hconstants⟩ := hshaders ["fsh"] .release Numbered.shaders text
    Numbered.result_shaders htext
  obtain ⟨-, hfields, -⟩ := himages .builtin Numbered.images Numbered.images
    Numbered.result_images rfl
  refine ⟨?_, ?_, hfields.trans (by decide +kernel)⟩
  · exact (hconstants Numbered.tap (by simp [Numbered.shaders])).mpr ⟨'t', rfl, by decide⟩
  · intro hname
    obtain ⟨c, hc, hdigit⟩ := (hconstants Numbered.numbered (by simp [Numbered.shaders])).mp hname
    obtain rfl : '1' = c := Option.some.inj hc
    exact absurd hdigit (by decide)

end Emit

end AssetPack
