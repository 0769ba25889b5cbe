import AssetPack.Fingerprint
import AssetPack.Proofs.Digest.ContentHash
import AssetPack.Proofs.Text.Quoted
import AssetPack.Proofs.Text.Utf8

/-!
# What a fingerprint binds

The bytes that are digested for a class are its records, one behind the other. This file reads
them back: the bytes determine, and are determined by, the generator's hash, the options, and for
each asset in turn its identifier, its file name, the hash of its content and, for an image, its
density (`message_binds`). No file name can change that, since names are quoted.

Each record is a prefix code for what it binds (`prefixCode_ofShader` and its like), built by the
rules of `PrefixCode` from the parts between its fixed texts. The row of assets at the end needs
no closing mark, because the message ends with it.
-/

set_option autoImplicit false

namespace AssetPack.Fingerprint

open Text

/-- What a fingerprint binds of a shader. -/
def shaderKey (s : Shader) : Identifier × String × ContentHash :=
  (s.identifier, s.fileName, .ofBytes s.source)

/-- What a fingerprint binds of an image. -/
def imageKey (i : Image) : Identifier × String × ContentHash × Nat :=
  (i.identifier, i.fileName, .ofBytes i.content, i.density.dpi)

/-- The bytes that are digested for a class of shaders. -/
def shaderMessage (signature : List Char) (mode : BuildMode) (c : ClassName)
    (shaders : Catalog Shader) : List UInt8 :=
  Utf8.encode (message .shaders (shaderRecords signature mode c shaders))

/-- The bytes that are digested for a class of images. -/
def imageMessage (signature : List Char) (c : ClassName) (crunched : Bool)
    (images : Catalog Image) : List UInt8 :=
  Utf8.encode (message .images (imageRecords signature c crunched images))

/-! ## Records -/

/-- The hash that a record of the generator shows. -/
def signatureHash (signature : List Char) : ContentHash := .ofBytes (Utf8.encode signature)

theorem prefixCode_ofSignature :
    PrefixCode (fun signature => (Record.ofSignature signature).written) signatureHash :=
  ((ContentHash.prefixCode_text.comp Utf8.encode).after "Generator(hash=".toList).before [')']

theorem prefixCode_mode : PrefixCode (fun mode => (Record.mode mode).written) id := by
  have hmark : ∀ mode : BuildMode, ')' ∉ "Debug(".toList ++ mode.word.toList := by
    intro mode
    cases mode <;> decide
  refine .until_mark hmark fun a b h => ?_
  cases a <;> cases b <;> first | rfl | exact absurd h (by decide)

theorem prefixCode_text (name : String) :
    PrefixCode (fun s => (Record.option name (.text s)).written) id := by
  have hquoted := ((Quoted.prefixCode_encode.comp String.toList).after ['(']).after name.toList
  exact (hquoted.before [')']).rekey fun _ _ => String.toList_inj.mp

theorem prefixCode_flag (name : String) :
    PrefixCode (fun b => (Record.option name (.flag b)).written) id := by
  have hmark : ∀ b, ')' ∉ (Value.flag b).written := by decide
  have hflag : PrefixCode (fun b => (Value.flag b).written ++ [')']) id :=
    .until_mark hmark (by decide)
  exact ((hflag.after ['(']).after name.toList).congr fun _ => List.append_assoc _ _ _

/-- The part that all assets share tells what is bound of each. -/
theorem prefixCode_assetPart :
    PrefixCode
      (fun a : Identifier × String × List UInt8 =>
        Record.assetPart a.1.name a.2.1 (.ofBytes a.2.2))
      fun a => (a.1, a.2.1, ContentHash.ofBytes a.2.2) := by
  have hquoted := Quoted.prefixCode_encode.comp String.toList
  have hnames := ((hquoted.comp fun a : Identifier × String × List UInt8 => a.1.name).before
    ",filename=".toList).append (hquoted.comp fun a => a.2.1)
  have hall := (hnames.before ",hash=".toList).append
    (ContentHash.prefixCode_text.comp fun a => a.2.2)
  refine hall.rekey ?_
  rintro ⟨⟨name, hname⟩, file, content⟩ ⟨⟨name', hname'⟩, file', content'⟩ h
  simp only [id_eq, Prod.mk.injEq, String.toList_inj] at h
  obtain ⟨⟨rfl, rfl⟩, hhash⟩ := h
  rw [hhash]

theorem prefixCode_ofShader :
    PrefixCode (fun s => (Record.ofShader s).written) shaderKey :=
  ((prefixCode_assetPart.comp fun s : Shader => (s.identifier, s.fileName, s.source)).after
    "Shader(".toList).before [')']

theorem prefixCode_number : PrefixCode (fun n : Nat => (toString n).toList ++ [')']) id := by
  refine .until_mark (fun n hn => ?_) fun m n h => ?_
  · rw [toList_toString] at hn
    exact of_mem_digits (P := (· ≠ ')')) (by decide) (by decide) (by decide) hn rfl
  · rw [toList_toString, toList_toString] at h
    exact digits_injective (by decide) (by decide) h

theorem prefixCode_ofImage : PrefixCode (fun i => (Record.ofImage i).written) imageKey := by
  have hasset := (prefixCode_assetPart.comp
    fun i : Image => (i.identifier, i.fileName, i.content)).after "Image(".toList
  have hall := (hasset.before ",dpi=".toList).append
    (prefixCode_number.comp fun i : Image => i.density.dpi)
  refine (hall.congr fun _ => List.append_assoc _ _ _).rekey fun a b h => ?_
  simpa [imageKey, and_assoc] using h

/-! ## Whole messages -/

theorem written_ofShader_ne_nil (s : Shader) : (Record.ofShader s).written ≠ [] :=
  List.append_ne_nil_of_right_ne_nil _ (List.cons_ne_nil _ _)

theorem written_ofImage_ne_nil (i : Image) : (Record.ofImage i).written ≠ [] :=
  List.append_ne_nil_of_right_ne_nil _ (List.cons_ne_nil _ _)

theorem map_ofShader (shaders : List Shader) :
    shaders.map Record.ofShader =
      (shaders.map shaderKey).map fun k => .shader k.1.name k.2.1 k.2.2 := by
  rw [List.map_map]
  rfl

theorem map_ofImage (images : List Image) :
    images.map Record.ofImage =
      (images.map imageKey).map fun k => .image k.1.name k.2.1 k.2.2.1 k.2.2.2 := by
  rw [List.map_map]
  rfl

/-- The messages of two classes of shaders are equal just if all that they bind is. -/
theorem shaderMessage_eq_iff {signature signature' : List Char} {mode mode' : BuildMode}
    {c c' : ClassName} {shaders shaders' : Catalog Shader} :
    shaderMessage signature mode c shaders = shaderMessage signature' mode' c' shaders' ↔
      signatureHash signature = signatureHash signature' ∧ mode = mode' ∧ c.full = c'.full ∧
        shaders.assets.map shaderKey = shaders'.assets.map shaderKey := by
  constructor
  · intro h
    have hrecords := List.append_cancel_left (Utf8.encode_injective h)
    simp only [shaderRecords, List.flatMap_cons, List.flatMap_map] at hrecords
    obtain ⟨hsignature, hrecords⟩ := prefixCode_ofSignature hrecords
    obtain ⟨hmode, hrecords⟩ := prefixCode_mode hrecords
    obtain ⟨hclass, hrecords⟩ := prefixCode_text "Class" hrecords
    exact ⟨hsignature, hmode, hclass,
      prefixCode_ofShader.map_eq_of_flatMap_eq written_ofShader_ne_nil hrecords⟩
  · rintro ⟨hsignature, rfl, hclass, hkeys⟩
    have hfirst : Record.ofSignature signature = Record.ofSignature signature' :=
      congrArg Record.generator hsignature
    simp only [shaderMessage, shaderRecords, hfirst, hclass, map_ofShader, hkeys]

/-- The messages of two classes of images are equal just if all that they bind is. -/
theorem imageMessage_eq_iff {signature signature' : List Char} {c c' : ClassName}
    {crunched crunched' : Bool} {images images' : Catalog Image} :
    imageMessage signature c crunched images = imageMessage signature' c' crunched' images' ↔
      signatureHash signature = signatureHash signature' ∧ c.full = c'.full ∧
        crunched = crunched' ∧ images.assets.map imageKey = images'.assets.map imageKey := by
  constructor
  · intro h
    have hrecords := List.append_cancel_left (Utf8.encode_injective h)
    simp only [imageRecords, List.flatMap_cons, List.flatMap_map] at hrecords
    obtain ⟨hsignature, hrecords⟩ := prefixCode_ofSignature hrecords
    obtain ⟨hclass, hrecords⟩ := prefixCode_text "Class" hrecords
    obtain ⟨hcrunched, hrecords⟩ := prefixCode_flag "CrunchEnabled" hrecords
    exact ⟨hsignature, hclass, hcrunched,
      prefixCode_ofImage.map_eq_of_flatMap_eq written_ofImage_ne_nil hrecords⟩
  · rintro ⟨hsignature, hclass, rfl, hkeys⟩
    have hfirst : Record.ofSignature signature = Record.ofSignature signature' :=
      congrArg Record.generator hsignature
    simp only [imageMessage, imageRecords, hfirst, hclass, map_ofImage, hkeys]

/-- The two kinds of message part at the second character. -/
theorem shaderMessage_ne_imageMessage (signature signature' : List Char) (mode : BuildMode)
    (crunched : Bool) (c c' : ClassName) (shaders : Catalog Shader) (images : Catalog Image) :
    shaderMessage signature mode c shaders ≠ imageMessage signature' c' crunched images := by
  intro h
  have hsecond : ['<', 'S'] = ['<', 'I'] := congrArg (List.take 2) (Utf8.encode_injective h)
  exact absurd hsecond (by decide)

/-- **A message tells all that it was made from.** The bytes that are digested for a class of
shaders determine the generator's hash, the build mode, the full name of the class, and the
identifier, file name and content hash of each shader in turn; those for a class of images do so
with the crunch flag and the densities; and nothing else has an influence on them. No bytes are
those of a class of shaders and of a class of images. -/
theorem message_binds :
    (∀ (signature signature' : List Char) (mode mode' : BuildMode) (c c' : ClassName)
        (shaders shaders' : Catalog Shader),
      shaderMessage signature mode c shaders = shaderMessage signature' mode' c' shaders' ↔
        signatureHash signature = signatureHash signature' ∧ mode = mode' ∧ c.full = c'.full ∧
          shaders.assets.map shaderKey = shaders'.assets.map shaderKey) ∧
    (∀ (signature signature' : List Char) (c c' : ClassName) (crunched crunched' : Bool)
        (images images' : Catalog Image),
      imageMessage signature c crunched images = imageMessage signature' c' crunched' images' ↔
        signatureHash signature = signatureHash signature' ∧ c.full = c'.full ∧
          crunched = crunched' ∧ images.assets.map imageKey = images'.assets.map imageKey) ∧
    ∀ (signature signature' : List Char) (mode : BuildMode) (crunched : Bool) (c c' : ClassName)
        (shaders : Catalog Shader) (images : Catalog Image),
      shaderMessage signature mode c shaders ≠ imageMessage signature' c' crunched images :=
  ⟨fun _ _ _ _ _ _ _ _ => shaderMessage_eq_iff, fun _ _ _ _ _ _ _ _ => imageMessage_eq_iff,
    shaderMessage_ne_imageMessage⟩

end AssetPack.Fingerprint
