import AssetPack.Emit.Generator
import AssetPack.Emit.ImageTemplates
import AssetPack.Emit.Shaders
import AssetPack.Text.Base64Url

/-!
# Classes of images

One accessor for each image, in the order of the catalog, with the bytes as a base64 literal. Base64
text has nothing to escape, so there is a literal for every byte string. The error that the encoder
could give is passed on all the same, as it is for shaders, and `images` is the text that is
there because it never comes.
-/

set_option autoImplicit false

namespace AssetPack.Emit

/-- What identifies the layout of a class of images: the text of its templates. -/
def imageSignature : List Char :=
  s!"{programName} {programVersion}\n".toList ++ prelude ++ bitmapAccessor ++ ninePatchAccessor

/-! ## Literals -/

/-- The bytes of an image as a literal. -/
def contentLiteral (content : List UInt8) : Except Java.Literal.Unsupported (List Char) :=
  Java.Literal.encode (Text.Base64Url.encode content)

/-- Base64 text stands in its literal as it is. -/
theorem contentLiteral_eq (content : List UInt8) :
    contentLiteral content = .ok ('"' :: Text.Base64Url.encode content ++ ['"']) :=
  Java.Literal.encode_of_plain fun _ hc => Text.Base64Url.of_mem_encode (by decide) hc

theorem isSome_contentLiteral (content : List UInt8) :
    (contentLiteral content).toOption.isSome = true := by
  rw [contentLiteral_eq]
  rfl

/-- The literal that there always is. -/
def imageLiteral (content : List UInt8) : List Char :=
  (contentLiteral content).toOption.get (isSome_contentLiteral content)

theorem imageLiteral_eq (content : List UInt8) :
    imageLiteral content = '"' :: Text.Base64Url.encode content ++ ['"'] := by
  simp only [imageLiteral, contentLiteral_eq]
  rfl

theorem contentLiteral_eq_ok (content : List UInt8) :
    contentLiteral content = .ok (imageLiteral content) := by
  rw [contentLiteral_eq, imageLiteral_eq]

/-! ## Accessors -/

/-- The accessor template of a format. -/
def accessorTemplate : ImageFormat → List Char
  | .bitmap => bitmapAccessor
  | .ninePatch => ninePatchAccessor

/-- The accessor of an image with a literal. -/
def fillAccessor (i : Image) (literal : List Char) : List Char :=
  Template.fillAll (accessorTemplate i.format)
    [("field", i.identifier.fieldName.toList), ("getter", i.identifier.accessorName.toList),
     ("dpi", (toString i.density.dpi).toList), ("literal", literal)]

/-- The accessor of an image with the literal of its bytes, if they have one. -/
def imageAccessor (i : Image) : Traced UnsupportedContent (List Char) := do
  let literal ← Traced.ofExcept <|
    (contentLiteral i.content).mapError fun e => ⟨i.fileName, .noLiteral e⟩
  Traced.note .debug "emitted image accessor"
    [("image", i.identifier.name), ("format", i.format.word), ("dpi", toString i.density.dpi)]
  return fillAccessor i literal

/-- All accessors. -/
def imageAccessors : List Image → Traced UnsupportedContent (List Char)
  | [] => pure []
  | i :: rest => do
    let first ← imageAccessor i
    let others ← imageAccessors rest
    return first ++ others

/-- The accessor of an image. -/
def accessor (i : Image) : List Char := fillAccessor i (imageLiteral i.content)

theorem result_imageAccessor (i : Image) : (imageAccessor i).result = .ok (accessor i) := by
  rw [imageAccessor, contentLiteral_eq_ok]
  rfl

theorem result_imageAccessors (assets : List Image) :
    (imageAccessors assets).result = .ok (assets.flatMap accessor) := by
  induction assets with
  | nil => rfl
  | cons i rest ih =>
    rw [imageAccessors, Traced.result_bind, result_imageAccessor]
    change ((imageAccessors rest >>= fun others => pure (accessor i ++ others)).result) = _
    rw [Traced.result_bind, ih]
    rfl

/-! ## The class -/

/-- What stands above the accessors. -/
def imageHeader (c : ClassName) (f : Fingerprint) : List Char :=
  f.markerLine.toList ++ '\n' ::
    ((c.package?.map packageLine).getD [] ++
      Template.fill prelude "class_name" c.simpleName.toList)

/-- The class of a catalog of images, if all of them have literals. -/
def imageClass (c : ClassName) (catalog : Catalog Image) (f : Fingerprint) :
    Traced UnsupportedContent (List Char) := do
  let accessors ← imageAccessors catalog.assets
  return imageHeader c f ++ accessors ++ "\x7d\n".toList

theorem result_imageClass (c : ClassName) (catalog : Catalog Image) (f : Fingerprint) :
    (imageClass c catalog f).result =
      .ok (imageHeader c f ++ catalog.assets.flatMap accessor ++ "\x7d\n".toList) := by
  rw [imageClass, Traced.result_bind, result_imageAccessors]
  rfl

theorem isSome_imageClass (c : ClassName) (catalog : Catalog Image) (f : Fingerprint) :
    (imageClass c catalog f).result.toOption.isSome = true := by
  rw [result_imageClass]
  rfl

/-- The text of the class, which there always is. -/
def images (c : ClassName) (catalog : Catalog Image) (f : Fingerprint) : List Char :=
  (imageClass c catalog f).result.toOption.get (isSome_imageClass c catalog f)

theorem images_eq_accessors (c : ClassName) (catalog : Catalog Image) (f : Fingerprint) :
    images c catalog f =
      imageHeader c f ++ catalog.assets.flatMap accessor ++ "\x7d\n".toList := by
  simp only [images, result_imageClass]
  rfl

/-- **Writing a class of images never fails.** -/
theorem imageClass_eq_ok (c : ClassName) (catalog : Catalog Image) (f : Fingerprint) :
    (imageClass c catalog f).result = .ok (images c catalog f) := by
  rw [result_imageClass, images_eq_accessors]

end AssetPack.Emit
