import AssetPack.Emit.Images
import AssetPack.Proofs.Asset.Catalog
import AssetPack.Proofs.Asset.Identifier
import AssetPack.Proofs.Emit.Header
import AssetPack.Proofs.Emit.ImageLiteral
import AssetPack.Proofs.Emit.Template
import AssetPack.Proofs.Java.Literal

/-!
# A class of images holds their bytes

Everything that is put into the templates is made of letters, digits and a few marks, and a brace is
not among them. So the order in which names are filled makes no difference, no value is taken for a
place, and what stands between the quotes of a literal is base64 text with nothing to escape.

The templates themselves are looked at line by line. A place never reaches over the end of a line
(`Template.itemsFrom_append_lf`), and an opening brace at the end of one is followed by the line
feed.
-/

set_option autoImplicit false

namespace AssetPack

open Text

namespace Emit

/-! ## The templates -/

/-- What a line of a template is read as. -/
def lineItems (line : List Char) : List Template.Item := Template.items line ++ [.char '\n']

theorem items_unlines (lines : List String) :
    Template.items (unlines lines) = lines.flatMap fun line => lineItems line.toList := by
  induction lines with
  | nil => rfl
  | cons line rest ih =>
    have hcons : unlines (line :: rest) = line.toList ++ '\n' :: unlines rest := by simp [unlines]
    rw [hcons, Template.items, Template.itemsFrom_append_lf (Nat.zero_le _), ih, List.flatMap_cons,
      lineItems, List.append_assoc]
    rfl

/-- The check of a template, a line at a time. A literal is compared with the characters it is
written with, which is much less work than to compute them. -/
theorem forall_lines_cons {check : List Char → Bool} {line : String} {s : List Char}
    {rest : List String} (hline : line = String.ofList s) (hs : check s = true)
    (h : ∀ l ∈ rest, check l.toList = true) : ∀ l ∈ line :: rest, check l.toList = true := by
  subst hline
  rw [List.forall_mem_cons, String.toList_ofList]
  exact ⟨hs, h⟩

/-- The check of a line. -/
def isSealedLine (names : List String) (line : List Char) : Bool :=
  Template.isSealed names (lineItems line)

theorem sealed_unlines {names lines : List String}
    (h : ∀ line ∈ lines, isSealedLine names line.toList = true) :
    Template.Sealed names (Template.items (unlines lines)) := by
  rw [items_unlines]
  exact .flatMap fun line hline => Template.sealed_of_isSealed (h line hline)

/-- The place of the prelude. -/
def preludeNames : List String := ["class_name"]

/-- The places of an accessor. -/
def accessorNames : List String := ["field", "getter", "dpi", "literal"]

theorem sealed_prelude : Template.Sealed preludeNames (Template.items prelude) := by
  refine sealed_unlines ?_
  dsimp only [preludeLines]
  repeat refine forall_lines_cons rfl (by decide +kernel) ?_
  exact List.forall_mem_nil _

theorem sealed_accessorTemplate (format : ImageFormat) :
    Template.Sealed accessorNames (Template.items (accessorTemplate format)) := by
  cases format with
  | bitmap =>
    refine sealed_unlines ?_
    dsimp only [bitmapLines]
    repeat refine forall_lines_cons rfl (by decide +kernel) ?_
    exact List.forall_mem_nil _
  | ninePatch =>
    refine sealed_unlines ?_
    dsimp only [ninePatchLines]
    repeat refine forall_lines_cons rfl (by decide +kernel) ?_
    exact List.forall_mem_nil _

/-! ## The values -/

/-- The values of an accessor's places. -/
def accessorValues (i : Image) : List (String × List Char) :=
  [("field", i.identifier.fieldName.toList), ("getter", i.identifier.accessorName.toList),
   ("dpi", (toString i.density.dpi).toList), ("literal", imageLiteral i.content)]

theorem brace_notMem_simpleName (c : ClassName) : '\x7b' ∉ c.simpleName.toList := fun h =>
  ClassName.of_mem_simpleName (fun _ => Java.ne_of_isNamePart (b := '\x7b') (by decide)) h rfl

/-- A value has nothing in it but letters, digits, quotes, dashes and underscores. -/
theorem notMem_accessorValues {b : Char} (hword : isWordChar b = false) (hquote : b ≠ '"')
    (hdash : b ≠ '-') (i : Image) : ∀ v ∈ accessorValues i, b ∉ v.2 := by
  have hname : ∀ s : List Char, (∀ c ∈ s, c.isAlphanum = true) → b ∉ s := by
    intro s hs hb
    rw [Identifier.isWordChar_of_isAlphanum (hs b hb)] at hword
    cases hword
  have hdpi : b ∉ (toString i.density.dpi).toList := by
    rw [toList_toString]
    refine hname _ fun c => ?_
    exact of_mem_digits (P := fun c => c.isAlphanum = true) (by decide) (by decide) (by decide)
  have hdigits : b ∉ Base64Url.encode i.content := by
    intro hb
    have halphabet : isWordChar b = true ∨ b = '-' :=
      Base64Url.of_mem_encode (P := fun c => isWordChar c = true ∨ c = '-') (by decide) hb
    simp [hword, hdash] at halphabet
  have hliteral : b ∉ imageLiteral i.content := by
    simp only [imageLiteral_eq, List.cons_append, List.mem_cons, List.mem_append]
    rintro (rfl | hb | hb | hb)
    · exact hquote rfl
    · exact hdigits hb
    · exact hquote hb
    · cases hb
  simp only [accessorValues, List.forall_mem_cons]
  exact ⟨hname _ fun _ => Identifier.isAlphanum_of_mem_fieldName,
    hname _ fun _ => Identifier.isAlphanum_of_mem_accessorName, hdpi, hliteral,
    List.forall_mem_nil _⟩

theorem brace_notMem_accessorValues (i : Image) : ∀ v ∈ accessorValues i, '\x7b' ∉ v.2 :=
  notMem_accessorValues (by decide) (by decide) (by decide) i

theorem isName_of_mem_accessorNames : ∀ n ∈ accessorNames, Template.IsName n := by
  decide

theorem isName_of_mem_preludeNames : ∀ n ∈ preludeNames, Template.IsName n := by
  decide

/-! ## The texts -/

theorem prelude_eq (c : ClassName) :
    Template.fill prelude "class_name" c.simpleName.toList =
      Template.fillTogether prelude [("class_name", c.simpleName.toList)] := by
  -- One name is filled like a list of one.
  show Template.fillAll prelude [("class_name", c.simpleName.toList)] = _
  refine Template.fillAll_eq_fillTogether isName_of_mem_preludeNames sealed_prelude ?_
  intro v hv
  rw [List.mem_singleton.mp hv]
  exact ⟨isName_of_mem_preludeNames _ List.mem_cons_self, brace_notMem_simpleName c⟩

/-- In whatever order the names are filled, it is as if they had been filled at once. -/
theorem accessor_eq (i : Image) {values : List (String × List Char)}
    (h : values.Perm (accessorValues i)) :
    Template.fillAll (accessorTemplate i.format) values =
      Template.fillTogether (accessorTemplate i.format) (accessorValues i) := by
  have hdistinct : ((accessorValues i).map Prod.fst).Nodup := by
    show accessorNames.Nodup
    decide
  have hvalues : ∀ v ∈ values, Template.IsName v.1 ∧ '\x7b' ∉ v.2 := by
    intro v hv
    have hmem := h.mem_iff.mp hv
    exact ⟨isName_of_mem_accessorNames v.1 (List.mem_map_of_mem hmem),
      brace_notMem_accessorValues i v hmem⟩
  rw [Template.fillAll_eq_fillTogether isName_of_mem_accessorNames
    (sealed_accessorTemplate i.format) hvalues, Template.fillTogether_perm _ h hdistinct]

theorem images_eq (c : ClassName) (catalog : Catalog Image) (f : Fingerprint) :
    images c catalog f = f.markerLine.toList ++ '\n' ::
      ((c.package?.map packageLine).getD [] ++
        Template.fillTogether prelude [("class_name", c.simpleName.toList)] ++
        (catalog.assets.flatMap fun i =>
          Template.fillTogether (accessorTemplate i.format) (accessorValues i)) ++
        "\x7d\n".toList) := by
  have haccessor : accessor = fun i =>
      Template.fillTogether (accessorTemplate i.format) (accessorValues i) :=
    funext fun i => accessor_eq i (List.Perm.refl _)
  rw [images_eq_accessors, imageHeader, prelude_eq, haccessor]
  simp only [List.append_assoc, List.cons_append]

/-! ## No place is left -/

theorem closed_packageLine (c : ClassName) :
    Template.Closed ((c.package?.map packageLine).getD []) := by
  refine Template.closed_of_notMem ?_
  cases hp : c.package? with
  | none => exact List.not_mem_nil
  | some p =>
    have hname : ∀ a, Java.isNamePart a = true → a ≠ '\x7b' :=
      fun _ => Java.ne_of_isNamePart (by decide)
    have hmem : '\x7b' ∉ p.toList := fun h =>
      ClassName.of_mem_package hname (by decide) hp h rfl
    exact List.not_mem_append (List.not_mem_append (by decide) hmem) (by decide)

theorem closed_prelude (c : ClassName) :
    Template.Closed (Template.fillTogether prelude [("class_name", c.simpleName.toList)]) := by
  refine sealed_prelude.closed (List.Subset.refl _) ?_
  intro v hv
  rw [List.mem_singleton.mp hv]
  exact brace_notMem_simpleName c

theorem closed_accessor (i : Image) :
    Template.Closed (Template.fillTogether (accessorTemplate i.format) (accessorValues i)) :=
  (sealed_accessorTemplate i.format).closed (List.Subset.refl _) (brace_notMem_accessorValues i)

/-- Two opening braces stand side by side only where the digest has them. -/
theorem double_brace_iff (c : ClassName) (catalog : Catalog Image) (f : Fingerprint) :
    ['\x7b', '\x7b'] <:+: images c catalog f ↔ ['\x7b', '\x7b'] <:+: f.hex.toList := by
  have hmarker : f.markerLine.toList =
      "// ".toList ++ f.kind.label.toList ++ " hash: ".toList ++ f.hex.toList := by
    rw [Fingerprint.toList_markerLine]
    simp only [List.append_assoc]
  constructor
  · intro hpair
    by_contra hnot
    have hlabel : '\x7b' ∉ "// ".toList ++ f.kind.label.toList ++ " hash: ".toList := by
      cases f.kind <;> decide
    -- The line feed keeps a brace at the end of the digest apart from what follows.
    have hline : Template.Closed (f.markerLine.toList ++ ['\n']) := by
      rw [hmarker, List.append_assoc]
      exact (Template.closed_of_notMem hlabel).append (Template.closed_line hnot)
    have hclosed := hline.append (((closed_packageLine c).append (closed_prelude c)).append
      (.flatMap fun i (_ : i ∈ catalog.assets) => closed_accessor i))
    have hend : Template.Closed "\x7d\n".toList := Template.closed_of_notMem (by decide)
    refine (hclosed.append hend).no_pair ?_
    rw [images_eq] at hpair
    simpa only [List.append_assoc, List.cons_append, List.nil_append] using hpair
  · intro hpair
    rw [images_eq, hmarker]
    refine hpair.trans (List.IsInfix.trans ?_ (List.prefix_append _ _).isInfix)
    exact (List.suffix_append _ _).isInfix

/-! ## The class -/

/-- What is read off the places of an accessor: the density in its decimal digits, and the bytes of
the image between the quotes. -/
theorem accessorValues_read (i : Image) :
    numberOf? 10 (toString i.density.dpi).toList = some i.density.dpi ∧
    ∃ text, Java.Literal.encode text = .ok (imageLiteral i.content) ∧
      (∀ rest, Java.Lexer.readLiteral (imageLiteral i.content ++ rest) =
        some (text.flatMap Java.Lexer.units, rest)) ∧
      Base64Url.decode text = some i.content := by
  have hdpi : numberOf? 10 (toString i.density.dpi).toList = some i.density.dpi := by
    rw [toList_toString]
    exact numberOf?_digits (by decide) (by decide) 0 i.density.dpi
  have hle : ∀ c ∈ Base64Url.encode i.content, c.toNat ≤ 0xFFFF := fun c hc =>
    Base64Url.of_mem_encode (P := fun c => c.toNat ≤ 0xFFFF) (by decide) hc
  obtain ⟨literal, hliteral, -, hread⟩ := Java.Literal.encode_of_le hle
  obtain rfl : imageLiteral i.content = literal :=
    Except.ok.inj ((contentLiteral_eq_ok i.content).symm.trans hliteral)
  exact ⟨hdpi, Base64Url.encode i.content, hliteral, hread, Base64Url.decode_encode i.content⟩

/-- **The class of a catalog of images embeds exactly their bytes.** There always is one, and it has
an accessor for each image, in the order of the bytes of the identifiers. Each is the template of its format with all places filled
at once, and from the literal in it the bytes of the image are read back. -/
theorem images_embed_content {assets : List Image} {catalog : Catalog Image}
    (h : Catalog.ofList assets = .ok catalog) (c : ClassName) (f : Fingerprint) :
    catalog.assets.Perm assets ∧
    (catalog.assets.Pairwise fun i j =>
      Utf8.encode i.identifier.name.toList < Utf8.encode j.identifier.name.toList) ∧
    (imageClass c catalog f).result = .ok (images c catalog f) ∧
    images c catalog f = f.markerLine.toList ++ '\n' ::
      ((c.package?.map packageLine).getD [] ++
        Template.fillTogether prelude [("class_name", c.simpleName.toList)] ++
        (catalog.assets.flatMap fun i =>
          Template.fillTogether (accessorTemplate i.format) (accessorValues i)) ++
        "\x7d\n".toList) ∧
    (∀ i : Image,
      (∀ values, values.Perm (accessorValues i) →
        Template.fillAll (accessorTemplate i.format) values =
          Template.fillTogether (accessorTemplate i.format) (accessorValues i)) ∧
      numberOf? 10 (toString i.density.dpi).toList = some i.density.dpi ∧
      ∃ text, Java.Literal.encode text = .ok (imageLiteral i.content) ∧
        (∀ rest, Java.Lexer.readLiteral (imageLiteral i.content ++ rest) =
          some (text.flatMap Java.Lexer.units, rest)) ∧
        Base64Url.decode text = some i.content) ∧
    (['\x7b', '\x7b'] <:+: images c catalog f ↔ ['\x7b', '\x7b'] <:+: f.hex.toList) ∧
    ∀ kind records, ¬ ['\x7b', '\x7b'] <:+: images c catalog (.ofRecords kind records) := by
  obtain ⟨hown, hperm⟩ := Catalog.ofList_eq_ok.mp h
  refine ⟨hperm, hown.pairwise.imp Identifier.name_lt_iff.mp, imageClass_eq_ok c catalog f,
    images_eq c catalog f, fun i => ⟨fun values => accessor_eq i, accessorValues_read i⟩, double_brace_iff c catalog f, ?_⟩
  intro kind records hpair
  have hbrace := ((double_brace_iff c catalog _).mp hpair).subset List.mem_cons_self
  rw [Fingerprint.ofRecords, String.toList_ofList] at hbrace
  exact Digest.Sha384.of_mem_hex (P := (· ≠ '\x7b')) (by decide) hbrace rfl

namespace Pair

def className : ClassName := ⟨["Images"], by decide, by decide⟩

def plain : Image := ⟨.sanitize "a", "a.png", [0x7B, 0x7B], ⟨160⟩, .bitmap⟩

def patch : Image := ⟨.sanitize "b", "b.9.png", [0xFF], .unspecified, .ninePatch⟩

def catalog : Catalog Image := .ofAscending [plain, patch] (by decide +kernel)

end Pair

/-- The bytes of the first image are two braces, but the class has no two braces side by side. -/
theorem images_embed_content_pair :
    Catalog.ofList [Pair.patch, Pair.plain] = .ok Pair.catalog ∧
      ¬ ['\x7b', '\x7b'] <:+: images Pair.className Pair.catalog ⟨.images, "00"⟩ := by
  have hcatalog : Catalog.ofList [Pair.patch, Pair.plain] = .ok Pair.catalog :=
    Catalog.ofList_eq_ofAscending _ (List.Perm.swap _ _ _)
  obtain ⟨-, -, -, -, -, hpair, -⟩ :=
    images_embed_content hcatalog Pair.className ⟨.images, "00"⟩
  exact ⟨hcatalog, fun h => absurd (hpair.mp h) (by decide)⟩

end Emit

end AssetPack
