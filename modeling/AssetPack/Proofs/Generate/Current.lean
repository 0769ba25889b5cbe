import AssetPack.Host.Machine
import AssetPack.Proofs.Files.Memory
import AssetPack.Proofs.Generate.Run
import AssetPack.Proofs.Scan

/-!
# A class that is found current is current

A run leaves a class alone because of its first line. Here is why that is enough: whatever has
happened to the sources, the settings and the options since the class was written, if a run now
takes it for current, its bytes are those that the run would have written (`skipped_is_emitted`).

The argument goes backwards from the marker. It tells the digest (`markerLine_injective`), the
digest tells the message as far as digests do not collide, and the message tells class, mode and
the assets up to their hashes (`shaderMessage_eq_iff`, `imageMessage_eq_iff`), hence the assets.
Two things are no part of a message and have reasons of their own: the kind of a class stands in
the marker, and the format of an image is that of any image that was not crunched.
-/

set_option autoImplicit false

namespace AssetPack

open Digest.Sha384 (NoCollision)
open Text

/-! ## From fingerprints back to assets -/

namespace Fingerprint

theorem eq_of_map_eq {α κ : Type} {key : α → κ} {as bs : List α} (h : as.map key = bs.map key)
    (hkey : ∀ a ∈ as, ∀ b ∈ bs, key a = key b → a = b) : as = bs := by
  induction as generalizing bs with
  | nil => exact (List.map_eq_nil_iff.mp h.symm).symm
  | cons a as ih =>
    cases bs with
    | nil => cases h
    | cons b bs =>
      obtain ⟨hab, hrest⟩ := List.cons.inj h
      rw [hkey a List.mem_cons_self b List.mem_cons_self hab, ih hrest fun a ha b hb =>
        hkey a (List.mem_cons_of_mem _ ha) b (List.mem_cons_of_mem _ hb)]

/-- Without collisions, a fingerprint tells its message. -/
theorem message_eq_of_ofRecords_eq {kind kind' : ArtifactKind} {records records' : List Record}
    {digested : List (List UInt8)} (hno : NoCollision digested)
    (hmem : Utf8.encode (message kind records) ∈ digested)
    (hmem' : Utf8.encode (message kind' records') ∈ digested)
    (h : ofRecords kind records = ofRecords kind' records') :
    Utf8.encode (message kind records) = Utf8.encode (message kind' records') :=
  have hhex := String.ofList_inj.mp (congrArg Fingerprint.hex h)
  ContentHash.bytes_eq_of_ofBytes_eq hno hmem hmem' (ContentHash.hex_injective hhex)

end Fingerprint

namespace Generate

variable {σ : Type}

/-! ## What is digested -/

/-- The byte strings that are digested for a class of shaders: what identifies the generator, all
records, and the contents of the shaders. -/
def digestedShaders (mode : BuildMode) (c : ClassName) (shaders : Catalog Shader) :
    List (List UInt8) :=
  Utf8.encode Emit.shaderSignature ::
    Fingerprint.shaderMessage Emit.shaderSignature mode c shaders ::
    shaders.assets.map Shader.source

/-- The byte strings that are digested for a class of images. -/
def digestedImages (c : ClassName) (crunched : Bool) (images : Catalog Image) :
    List (List UInt8) :=
  Utf8.encode Emit.imageSignature ::
    Fingerprint.imageMessage Emit.imageSignature c crunched images ::
    images.assets.map Image.content

theorem shaderMessage_mem_digested (mode : BuildMode) (c : ClassName) (shaders : Catalog Shader) :
    Fingerprint.shaderMessage Emit.shaderSignature mode c shaders ∈
      digestedShaders mode c shaders :=
  List.mem_cons_of_mem _ List.mem_cons_self

theorem source_mem_digested (mode : BuildMode) (c : ClassName) {shaders : Catalog Shader}
    {s : Shader} (hs : s ∈ shaders.assets) : s.source ∈ digestedShaders mode c shaders :=
  List.mem_cons_of_mem _ (List.mem_cons_of_mem _ (List.mem_map_of_mem hs))

theorem imageMessage_mem_digested (c : ClassName) (crunched : Bool) (images : Catalog Image) :
    Fingerprint.imageMessage Emit.imageSignature c crunched images ∈
      digestedImages c crunched images :=
  List.mem_cons_of_mem _ List.mem_cons_self

theorem content_mem_digested (c : ClassName) (crunched : Bool) {images : Catalog Image}
    {i : Image} (hi : i ∈ images.assets) : i.content ∈ digestedImages c crunched images :=
  List.mem_cons_of_mem _ (List.mem_cons_of_mem _ (List.mem_map_of_mem hi))

/-- Without collisions, the fingerprint of a class of shaders tells mode, class and shaders. -/
theorem ofShaders_injective {mode mode' : BuildMode} {c c' : ClassName}
    {shaders shaders' : Catalog Shader}
    (hno : NoCollision (digestedShaders mode c shaders ++ digestedShaders mode' c' shaders'))
    (h : Fingerprint.ofShaders Emit.shaderSignature mode c shaders =
      .ofShaders Emit.shaderSignature mode' c' shaders') :
    mode = mode' ∧ c = c' ∧ shaders.assets = shaders'.assets := by
  have hmessage := Fingerprint.message_eq_of_ofRecords_eq hno
    (List.mem_append_left _ (shaderMessage_mem_digested mode c shaders))
    (List.mem_append_right _ (shaderMessage_mem_digested mode' c' shaders')) h
  obtain ⟨-, hmode, hfull, hkeys⟩ := Fingerprint.shaderMessage_eq_iff.mp hmessage
  refine ⟨hmode, ClassName.full_injective hfull, ?_⟩
  refine Fingerprint.eq_of_map_eq hkeys fun a ha b hb hab => ?_
  have ha' := source_mem_digested mode c ha
  have hb' := source_mem_digested mode' c' hb
  obtain ⟨identifier, fileName, source⟩ := a
  obtain ⟨identifier', fileName', source'⟩ := b
  simp only [Fingerprint.shaderKey, Prod.mk.injEq] at hab
  obtain ⟨rfl, rfl, hhash⟩ := hab
  exact congrArg (Shader.mk identifier fileName)
    (ContentHash.bytes_eq_of_ofBytes_eq hno (List.mem_append_left _ ha')
      (List.mem_append_right _ hb') hhash)

/-- Without collisions, the fingerprint of a class of images tells class, crunching and images, if
these are bitmaps. -/
theorem ofImages_injective {c c' : ClassName} {crunched crunched' : Bool}
    {images images' : Catalog Image} (hformat : ∀ i ∈ images.assets, i.format = .bitmap)
    (hformat' : ∀ i ∈ images'.assets, i.format = .bitmap)
    (hno : NoCollision (digestedImages c crunched images ++ digestedImages c' crunched' images'))
    (h : Fingerprint.ofImages Emit.imageSignature c crunched images =
      .ofImages Emit.imageSignature c' crunched' images') :
    c = c' ∧ crunched = crunched' ∧ images.assets = images'.assets := by
  have hmessage := Fingerprint.message_eq_of_ofRecords_eq hno
    (List.mem_append_left _ (imageMessage_mem_digested c crunched images))
    (List.mem_append_right _ (imageMessage_mem_digested c' crunched' images')) h
  obtain ⟨-, hfull, hcrunched, hkeys⟩ := Fingerprint.imageMessage_eq_iff.mp hmessage
  refine ⟨ClassName.full_injective hfull, hcrunched, ?_⟩
  refine Fingerprint.eq_of_map_eq hkeys fun a ha b hb hab => ?_
  -- The key leaves the format out, but there is only one that it can be.
  have hbitmap := (hformat a ha).trans (hformat' b hb).symm
  have ha' := content_mem_digested c crunched ha
  have hb' := content_mem_digested c' crunched' hb
  obtain ⟨identifier, fileName, content, ⟨dpi⟩, format⟩ := a
  obtain ⟨identifier', fileName', content', ⟨dpi'⟩, format'⟩ := b
  simp only [Fingerprint.imageKey, Prod.mk.injEq] at hab hbitmap
  obtain ⟨rfl, rfl, hhash, rfl⟩ := hab
  obtain rfl := hbitmap
  exact congrArg (Image.mk identifier fileName · ⟨dpi⟩ format)
    (ContentHash.bytes_eq_of_ofBytes_eq hno (List.mem_append_left _ ha')
      (List.mem_append_right _ hb') hhash)

/-- Whatever is digested, the two kinds of class have different fingerprints. -/
theorem ofShaders_ne_ofImages (signature signature' : List Char) (mode : BuildMode)
    (crunched : Bool) (c c' : ClassName) (shaders : Catalog Shader) (images : Catalog Image) :
    Fingerprint.ofShaders signature mode c shaders ≠ .ofImages signature' c' crunched images :=
  fun h => ArtifactKind.noConfusion (congrArg Fingerprint.kind h)

/-! ## What a run would write -/

/-- What a run for images finds out before it changes anything. -/
def lookAtImages [FileSystem σ] (o : ImageOptions) (fs : σ) : Traced RunError (Survey Image) := do
  let c ← readClassName o.className
  let config ← readConfig fs o.source
  surveyImages o config c fs

theorem lookAtImages_eq_ok [FileSystem σ] {o : ImageOptions} {fs : σ} {found : Survey Image} :
    (lookAtImages o fs).result = .ok found ↔
      ∃ c config, (readClassName o.className).result = .ok c ∧
        (readConfig fs o.source).result = .ok config ∧
        (surveyImages o config c fs).result = .ok found := by
  simp only [lookAtImages, Traced.result_bind, Except.bind_eq_ok, exists_and_left]

namespace Run

/-- Whether the run is for images that are to be crunched. -/
def crunches : Run σ → Bool
  | .shaders _ => false
  | .images o _ _ => o.scratch?.isSome

/-- The byte strings that the run digests in a state. -/
def digested [FileSystem σ] (fs : σ) : Run σ → List (List UInt8)
  | .shaders o =>
    match (surveyShaders o fs).result with
    | .ok found => digestedShaders o.mode found.className found.catalog
    | .error _ => []
  | .images o _ _ =>
    match (lookAtImages o fs).result with
    | .ok found => digestedImages found.className o.scratch?.isSome found.catalog
    | .error _ => []

/-- The fingerprint of what the run finds in a state. -/
def fingerprint [FileSystem σ] (fs : σ) : Run σ → Except RunError Fingerprint
  | .shaders o => do return (← (surveyShaders o fs).result).fingerprint
  | .images o _ _ => do return (← (lookAtImages o fs).result).fingerprint

/-- The text of the class, for the class name, mode, assets and fingerprint that the run finds in a
state. -/
def emitted [FileSystem σ] (fs : σ) : Run σ → Except RunError (List Char)
  | .shaders o => do
    let found ← (surveyShaders o fs).result
    (Emit.shaders found.className o.mode found.catalog found.fingerprint).result.mapError
      .unsupported
  | .images o _ _ => do
    let found ← (lookAtImages o fs).result
    return Emit.images found.className found.catalog found.fingerprint

end Run

/-! ## Runs in memory -/

variable {m m' : Memory} {out : Outcome}

/-- The marker of a current class is the one that the file was written with. -/
theorem fingerprint_of_isCurrent {path : Path} {f f' : Fingerprint} {rest : List Char}
    (hcurrent : (isCurrent m path f).result = .ok true)
    (hfile : m.find? path = some (Utf8.encode (f'.markerLine.toList ++ '\n' :: rest)))
    (hhex : ∀ c ∈ f'.hex.toList, IsPlainByte c) : f' = f := by
  have hline := isCurrent_eq_true.mp hcurrent
  have hanswer := Memory.guarded_of_ok hline (.ok ((m.find? path).map FileSystem.firstLineOf))
  have hmarker : (m.find? path).map FileSystem.firstLineOf = some f.markerLine.toList :=
    Except.ok.inj (hanswer.symm.trans hline)
  rw [hfile, Option.map_some, FileSystem.firstLineOf_encode
    (Fingerprint.isPlainByte_of_mem_markerLine hhex)] at hmarker
  exact Fingerprint.markerLine_injective (String.toList_inj.mp (Option.some.inj hmarker))

theorem shaders_written {o : ShaderOptions} (h : (shaders o).Ends m (.ok out) m')
    (hstatus : out.status = .written) :
    ∃ found text, (surveyShaders o m).result = .ok found ∧
      (Emit.shaders found.className o.mode found.catalog found.fingerprint).result = .ok text ∧
      m'.find? out.path = some (Utf8.encode text) := by
  obtain ⟨found, hfound, ⟨-, rfl, -⟩ | ⟨-, rfl, text, htext, hwrite⟩⟩ := shaders_ends_ok.mp h
  · cases hstatus
  · exact ⟨found, text, hfound, htext, Memory.find?_write hwrite⟩

theorem shaders_skipped {o : ShaderOptions} (h : (shaders o).Ends m (.ok out) m')
    (hstatus : out.status = .skipped) :
    ∃ found, (surveyShaders o m).result = .ok found ∧ found.isCurrent = true ∧
      out.path = found.path := by
  obtain ⟨found, hfound, ⟨hcurrent, rfl, -⟩ | ⟨-, rfl, -⟩⟩ := shaders_ends_ok.mp h
  · exact ⟨found, hfound, hcurrent, rfl⟩
  · cases hstatus

variable {env : ToolEnv} {given : Option (Cruncher Memory)}

theorem images_written {o : ImageOptions} (h : (images o env given).Ends m (.ok out) m')
    (hstatus : out.status = .written) :
    ∃ found catalog, (lookAtImages o m).result = .ok found ∧
      (o.scratch? = none → catalog = found.catalog) ∧
      m'.find? out.path =
        some (Utf8.encode (Emit.images found.className catalog found.fingerprint)) := by
  obtain ⟨c, config, chosen, found, hc, hconfig, hchosen, hfound, hend⟩ := images_ends_ok.mp h
  obtain ⟨-, rfl, -⟩ | ⟨-, catalog, t, hcatalog, rfl, hwrite⟩ := hend
  · cases hstatus
  obtain ⟨rfl, -⟩ := of_surveyImages hfound
  refine ⟨found, catalog, lookAtImages_eq_ok.mpr ⟨_, config, hc, hconfig, hfound⟩, fun hnone => ?_,
    Memory.find?_write hwrite⟩
  obtain rfl : none = chosen := by simpa [chooseCruncher, hnone] using hchosen
  exact (Except.ok.inj (Job.ends_pure.mp hcatalog).1).symm

theorem images_skipped {o : ImageOptions} (h : (images o env given).Ends m (.ok out) m')
    (hstatus : out.status = .skipped) :
    ∃ found, (lookAtImages o m).result = .ok found ∧ found.isCurrent = true ∧
      out.path = found.path := by
  obtain ⟨c, config, chosen, found, hc, hconfig, -, hfound, hend⟩ := images_ends_ok.mp h
  obtain ⟨hcurrent, rfl, -⟩ | ⟨-, _, _, -, rfl, -⟩ := hend
  · exact ⟨found, lookAtImages_eq_ok.mpr ⟨c, config, hc, hconfig, hfound⟩, hcurrent, rfl⟩
  · cases hstatus

theorem of_lookAtImages {o : ImageOptions} {found : Survey Image}
    (h : (lookAtImages o m).result = .ok found) :
    found.fingerprint = .ofImages Emit.imageSignature found.className o.scratch?.isSome
        found.catalog ∧
      (isCurrent m found.path found.fingerprint).result = .ok found.isCurrent ∧
      ∀ i ∈ found.catalog.assets, i.format = .bitmap := by
  obtain ⟨c, config, -, -, hfound⟩ := lookAtImages_eq_ok.mp h
  obtain ⟨rfl, hrest⟩ := of_surveyImages hfound
  exact hrest

theorem fingerprint_shaders {o : ShaderOptions} {found : Survey Shader}
    (h : (surveyShaders o m).result = .ok found) :
    (Run.shaders o).fingerprint m = .ok found.fingerprint := by
  rw [Run.fingerprint, h]
  rfl

theorem fingerprint_images {o : ImageOptions} {found : Survey Image}
    (h : (lookAtImages o m).result = .ok found) :
    (Run.images o env given).fingerprint m = .ok found.fingerprint := by
  rw [Run.fingerprint, h]
  rfl

/-- A class that was written begins with the marker of what was found. -/
theorem fingerprint_of_written {run : Run Memory} (h : run.job.Ends m (.ok out) m')
    (hstatus : out.status = .written) :
    ∃ f rest, run.fingerprint m = .ok f ∧ (∀ c ∈ f.hex.toList, IsPlainByte c) ∧
      m'.find? out.path = some (Utf8.encode (f.markerLine.toList ++ '\n' :: rest)) := by
  cases run with
  | shaders o =>
    obtain ⟨found, text, hfound, htext, hbytes⟩ := shaders_written h hstatus
    obtain ⟨rest, rfl⟩ := Emit.exists_eq_of_shaders htext
    refine ⟨_, rest, fingerprint_shaders hfound, ?_, hbytes⟩
    rw [(of_surveyShaders hfound).1]
    exact fun c => Fingerprint.isPlainByte_of_mem_hex
  | images o env given =>
    obtain ⟨found, catalog, hfound, -, hbytes⟩ := images_written h hstatus
    obtain ⟨rest, hrest⟩ := Emit.exists_eq_of_images found.className catalog found.fingerprint
    refine ⟨_, rest, fingerprint_images hfound, ?_, hrest ▸ hbytes⟩
    rw [(of_lookAtImages hfound).1]
    exact fun c => Fingerprint.isPlainByte_of_mem_hex

/-- A class that is skipped is current for the fingerprint of what was found. -/
theorem fingerprint_of_skipped {run : Run Memory} (h : run.job.Ends m (.ok out) m')
    (hstatus : out.status = .skipped) :
    ∃ f, run.fingerprint m = .ok f ∧ (isCurrent m out.path f).result = .ok true := by
  cases run with
  | shaders o =>
    obtain ⟨found, hfound, hcurrent, hpath⟩ := shaders_skipped h hstatus
    have hline := (of_surveyShaders hfound).2
    rw [hcurrent, ← hpath] at hline
    exact ⟨_, fingerprint_shaders hfound, hline⟩
  | images o env given =>
    obtain ⟨found, hfound, hcurrent, hpath⟩ := images_skipped h hstatus
    have hline := (of_lookAtImages hfound).2.1
    rw [hcurrent, ← hpath] at hline
    exact ⟨_, fingerprint_images hfound, hline⟩

/-- Two surveys of shaders with one fingerprint have found the same, whichever runs they are of. -/
theorem surveyShaders_inj {m₀ : Memory} {o₀ o : ShaderOptions} {found₀ found : Survey Shader}
    (h₀ : (surveyShaders o₀ m₀).result = .ok found₀) (h : (surveyShaders o m).result = .ok found)
    (hprint : found₀.fingerprint = found.fingerprint)
    (hno : NoCollision ((Run.shaders o₀).digested m₀ ++ (Run.shaders o).digested m)) :
    o₀.mode = o.mode ∧ found₀.className = found.className ∧
      found₀.catalog.assets = found.catalog.assets := by
  simp only [Run.digested, h₀, h] at hno
  obtain ⟨hprint₀, -⟩ := of_surveyShaders h₀
  obtain ⟨hprint', -⟩ := of_surveyShaders h
  exact ofShaders_injective hno (hprint₀.symm.trans (hprint.trans hprint'))

/-- So have two of images, and they are to be crunched in both runs or in neither. -/
theorem lookAtImages_inj {m₀ : Memory} {o₀ o : ImageOptions} {env₀ : ToolEnv}
    {given₀ : Option (Cruncher Memory)} {found₀ found : Survey Image}
    (h₀ : (lookAtImages o₀ m₀).result = .ok found₀) (h : (lookAtImages o m).result = .ok found)
    (hprint : found₀.fingerprint = found.fingerprint)
    (hno : NoCollision
      ((Run.images o₀ env₀ given₀).digested m₀ ++ (Run.images o env given).digested m)) :
    found₀.className = found.className ∧ o₀.scratch?.isSome = o.scratch?.isSome ∧
      found₀.catalog.assets = found.catalog.assets := by
  simp only [Run.digested, h₀, h] at hno
  obtain ⟨hprint₀, -, hformat₀⟩ := of_lookAtImages h₀
  obtain ⟨hprint', -, hformat⟩ := of_lookAtImages h
  exact ofImages_injective hformat₀ hformat hno (hprint₀.symm.trans (hprint.trans hprint'))

/-- A survey of shaders and one of images never have one fingerprint. -/
theorem surveyShaders_ne_lookAtImages {m₀ : Memory} {o₀ : ShaderOptions} {o : ImageOptions}
    {found₀ : Survey Shader} {found : Survey Image}
    (h₀ : (surveyShaders o₀ m₀).result = .ok found₀) (h : (lookAtImages o m).result = .ok found) :
    found₀.fingerprint ≠ found.fingerprint := by
  rw [(of_surveyShaders h₀).1, (of_lookAtImages h).1]
  exact ofShaders_ne_ofImages _ _ _ _ _ _ _ _

/-- **A class that is taken for current is current.** If a run finds the class up to date that some
earlier run has written, under whatever options and from whatever files, and no digests collide,
then the file has the very bytes that belong to the class name, mode, assets and fingerprint as they
are now. -/
theorem skipped_is_emitted {earlier now : Run Memory} {m₀ m₁ m m' : Memory}
    {written skipped : Outcome} (hearlier : earlier.job.Ends m₀ (.ok written) m₁)
    (hwritten : written.status = .written) (hnow : now.job.Ends m (.ok skipped) m')
    (hskipped : skipped.status = .skipped) (hcrunches : now.crunches = false)
    (hfile : m.find? skipped.path = m₁.find? written.path)
    (hno : NoCollision (earlier.digested m₀ ++ now.digested m)) :
    ∃ text, now.emitted m = .ok text ∧ m.find? skipped.path = some (Utf8.encode text) := by
  have hsame : earlier.fingerprint m₀ = now.fingerprint m := by
    obtain ⟨f, rest, hf, hhex, hbytes⟩ := fingerprint_of_written hearlier hwritten
    obtain ⟨f', hf', hcurrent⟩ := fingerprint_of_skipped hnow hskipped
    rw [hf, hf', fingerprint_of_isCurrent hcurrent (hfile.trans hbytes) hhex]
  -- One marker cannot be that of both kinds, so two of the four cases are none.
  cases earlier with
  | shaders o₀ =>
    obtain ⟨found₀, text, hfound₀, htext, hbytes⟩ := shaders_written hearlier hwritten
    rw [fingerprint_shaders hfound₀] at hsame
    cases now with
    | shaders o =>
      obtain ⟨found, hfound, -⟩ := shaders_skipped hnow hskipped
      rw [fingerprint_shaders hfound, Except.ok.injEq] at hsame
      obtain ⟨hmode, hclass, hassets⟩ := surveyShaders_inj hfound₀ hfound hsame hno
      rw [hmode, hclass, Emit.shaders, hassets, hsame, ← Emit.shaders] at htext
      refine ⟨text, ?_, hfile.trans hbytes⟩
      simpa only [Run.emitted, hfound, Except.ok_bind, Except.mapError_eq_ok] using htext
    | images o env given =>
      obtain ⟨found, hfound, -⟩ := images_skipped hnow hskipped
      rw [fingerprint_images hfound, Except.ok.injEq] at hsame
      exact absurd hsame (surveyShaders_ne_lookAtImages hfound₀ hfound)
  | images o₀ env₀ given₀ =>
    obtain ⟨found₀, catalog, hfound₀, hcatalog₀, hbytes⟩ := images_written hearlier hwritten
    rw [fingerprint_images hfound₀] at hsame
    cases now with
    | shaders o =>
      obtain ⟨found, hfound, -⟩ := shaders_skipped hnow hskipped
      rw [fingerprint_shaders hfound, Except.ok.injEq] at hsame
      exact absurd hsame.symm (surveyShaders_ne_lookAtImages hfound hfound₀)
    | images o env given =>
      obtain ⟨found, hfound, -⟩ := images_skipped hnow hskipped
      rw [fingerprint_images hfound, Except.ok.injEq] at hsame
      obtain ⟨hclass, hcrunched, hassets⟩ := lookAtImages_inj hfound₀ hfound hsame hno
      -- This run does not crunch, so the earlier one did not either.
      have hnone : o₀.scratch? = none := by simpa using hcrunched.trans hcrunches
      rw [hcatalog₀ hnone, hclass, Emit.images_eq_accessors, hassets, hsame,
        ← Emit.images_eq_accessors] at hbytes
      refine ⟨_, ?_, hfile.trans hbytes⟩
      simp only [Run.emitted, hfound, Except.ok_bind]
      rfl

/-! ### A shader that was moved -/

namespace Moved

/-- The bytes of a shader. -/
def content : List UInt8 := Utf8.encode "void main(){}".toList

/-- The shader. -/
def tap : Shader := ⟨.sanitize "tap.fsh", "tap.fsh", content⟩

/-- The name of its class. -/
def className : ClassName := ⟨["p", "S"], by decide, by decide⟩

/-- The catalog of the shader. -/
def catalog : Catalog Shader := .ofAscending [tap] (by decide +kernel)

/-- The options for a directory with the shader. -/
def options (source : Path) : ShaderOptions := ⟨source, ⟨"/gen"⟩, "p.S", .release⟩

/-- The fingerprint of the class. -/
def fingerprint : Fingerprint := .ofShaders Emit.shaderSignature .release className catalog

/-- The line of the shader in the class. -/
def line : List Char := "  public static final String tap_fsh = \"void main()\x7b\x7d\";\n".toList

/-- The class. -/
def text : List Char := Emit.shaderHeader className fingerprint ++ line ++ "\x7d\n".toList

/-- The class's file. -/
def output : Path := ⟨"/gen/p/S.java"⟩

/-- The shader in one directory. -/
def before : Memory := Memory.empty.add ⟨"/a/tap.fsh"⟩ content

/-- The shader in another directory with a file beside it, and the class as it was written. -/
def after : Memory :=
  { Memory.empty with
    files := [(⟨"/b/notes.txt"⟩, []), (⟨"/b/tap.fsh"⟩, content), (output, Utf8.encode text)]
    ordered := by decide +kernel }

theorem surveyShaders_before : (surveyShaders (options ⟨"/a"⟩) before).result =
    .ok ⟨className, output, catalog, fingerprint, false⟩ := by
  have hline : (isCurrent before output fingerprint).result = .ok false := by
    have hnone : FileSystem.firstLine before output = .ok none := by decide +kernel
    rw [result_isCurrent, hnone]
    rfl
  exact surveyShaders_eq_ok.mpr ⟨className, Config.default, catalog, by decide +kernel,
    by decide +kernel, by decide +kernel, survey_eq_ok.mpr ⟨false, hline, rfl⟩⟩

theorem result_shaders :
    (Emit.shaders className .release catalog fingerprint).result = .ok text := by
  have hlines : (Emit.constantLines .release catalog.assets).result = .ok line := by decide +kernel
  rw [Emit.shaders, Traced.result_bind, hlines]
  rfl

theorem find?_after : after.find? output = some (Utf8.encode text) := by
  have hnotes : Path.same ⟨"/b/notes.txt"⟩ output = false := by decide +kernel
  have htap : Path.same ⟨"/b/tap.fsh"⟩ output = false := by decide +kernel
  simp [Memory.find?, after, hnotes, htap, Path.same_self]

theorem surveyShaders_after : (surveyShaders (options ⟨"/b"⟩) after).result =
    .ok ⟨className, output, catalog, fingerprint, true⟩ := by
  have hplain : ∀ c ∈ fingerprint.markerLine.toList, IsPlainByte c :=
    Fingerprint.isPlainByte_of_mem_markerLine fun _ => Fingerprint.isPlainByte_of_mem_hex
  have hline : (isCurrent after output fingerprint).result = .ok true := by
    refine isCurrent_eq_true.mpr ?_
    change Except.ok ((after.find? output).map FileSystem.firstLineOf) = _
    obtain ⟨rest, hrest⟩ := Emit.exists_eq_of_shaders result_shaders
    rw [find?_after, hrest, Option.map_some, FileSystem.firstLineOf_encode hplain]
  exact surveyShaders_eq_ok.mpr ⟨className, Config.default, catalog, by decide +kernel,
    by decide +kernel, by decide +kernel, survey_eq_ok.mpr ⟨true, hline, rfl⟩⟩

/-- The digest of the generator's signature. -/
def signatureDigest : List UInt8 :=
  [61, 70, 111, 90, 105, 219, 65, 164, 121, 6, 214, 170, 207, 21, 106, 113, 151, 222, 102, 234,
   159, 244, 157, 113, 245, 137, 216, 173, 144, 209, 122, 159, 15, 163, 222, 96, 153, 95, 78, 38,
   91, 8, 12, 73, 42, 224, 99, 186]

/-- The digest of the shader's bytes. -/
def contentDigest : List UInt8 :=
  [180, 36, 228, 119, 247, 233, 4, 164, 173, 174, 17, 169, 27, 65, 218, 46, 134, 83, 175, 83, 119,
   235, 32, 58, 82, 6, 92, 112, 94, 215, 239, 175, 5, 60, 137, 57, 123, 123, 35, 108, 179, 99, 186,
   24, 201, 141, 233, 114]

open Digest in
theorem noCollision : NoCollision (digestedShaders .release className catalog) := by
  have hsignature : Sha384.digest (Utf8.encode Emit.shaderSignature) = signatureDigest := by
    decide +kernel
  have hcontent : Sha384.digest content = contentDigest := by decide +kernel
  -- The digests inside the message are put in first, so that they are not computed again.
  have hrecords : Fingerprint.shaderRecords Emit.shaderSignature .release className catalog =
      [.generator ⟨signatureDigest⟩, .mode .release, .option "Class" (.text "p.S"),
        .shader "tap_fsh" "tap.fsh" ⟨contentDigest⟩] := by
    rw [← hsignature, ← hcontent]
    rfl
  have hmessage : (Sha384.digest (Fingerprint.shaderMessage Emit.shaderSignature .release
      className catalog)).head? = some 210 := by
    rw [Fingerprint.shaderMessage, hrecords]
    decide +kernel
  refine Sha384.noCollision_of_nodup (List.Subset.refl _) (List.Nodup.of_map List.head? ?_)
  have hheads : ((digestedShaders .release className catalog).map Sha384.digest).map List.head? =
      [signatureDigest.head?, some 210, contentDigest.head?] := by
    rw [← hsignature, ← hcontent, ← hmessage]
    rfl
  rw [hheads]
  decide

end Moved

/-- The class is skipped from the other directory, and is what would be written. -/
theorem skipped_is_emitted_moved :
    ∃ text, (Run.shaders (Moved.options ⟨"/b"⟩) : Run Memory).emitted Moved.after = .ok text ∧
      Moved.after.find? Moved.output = some (Utf8.encode text) := by
  have hwrite : FileSystem.write Moved.before Moved.output (Utf8.encode Moved.text) =
    (.ok (), { Moved.before.add Moved.output (Utf8.encode Moved.text) with writes := 1 }) := rfl
  have hearlier : (Run.shaders (Moved.options ⟨"/a"⟩)).job.Ends Moved.before _ _ :=
    shaders_ends_ok.mpr ⟨_, Moved.surveyShaders_before,
      .inr ⟨rfl, rfl, Moved.text, Moved.result_shaders, hwrite⟩⟩
  have hnow : (Run.shaders (Moved.options ⟨"/b"⟩)).job.Ends Moved.after _ _ :=
    shaders_ends_ok.mpr ⟨_, Moved.surveyShaders_after, .inl ⟨rfl, rfl, rfl⟩⟩
  have hfile := Moved.find?_after.trans (Memory.find?_write hwrite).symm
  refine skipped_is_emitted hearlier rfl hnow rfl rfl hfile ?_
  simp only [Run.digested, Moved.surveyShaders_before, Moved.surveyShaders_after]
  intro a ha b hb
  exact Moved.noCollision a ((List.mem_append.mp ha).elim id id) b
    ((List.mem_append.mp hb).elim id id)

end Generate

end AssetPack
