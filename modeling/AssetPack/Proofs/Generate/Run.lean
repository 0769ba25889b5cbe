import AssetPack.Generate.Images
import AssetPack.Generate.Shaders
import AssetPack.Proofs.Job
import AssetPack.Proofs.Marker
import AssetPack.Proofs.Scan

/-!
# Runs, taken apart

What a successful run has done, step by step: what it found out, and how it went on from there. A
run that finds its class current has only looked (`shaders_ends_ok`, `images_ends_ok`); one that
does not has written a text whose first line is the marker of what it found.
-/

set_option autoImplicit false

namespace AssetPack

/-! ## Emitted texts -/

namespace Emit

/-- A class of shaders begins with the marker line. -/
theorem exists_eq_of_shaders {c : ClassName} {mode : BuildMode} {catalog : Catalog Shader}
    {f : Fingerprint} {text : List Char} (h : (shaders c mode catalog f).result = .ok text) :
    ∃ rest, text = f.markerLine.toList ++ '\n' :: rest := by
  rw [shaders, Traced.result_bind, Except.bind_eq_ok] at h
  obtain ⟨lines, -, h⟩ := h
  cases h
  exact ⟨_, by rw [shaderHeader, List.append_assoc, List.append_assoc, List.cons_append]⟩

/-- So does a class of images. -/
theorem exists_eq_of_images (c : ClassName) (catalog : Catalog Image) (f : Fingerprint) :
    ∃ rest, images c catalog f = f.markerLine.toList ++ '\n' :: rest :=
  ⟨_, by rw [images_eq_accessors, imageHeader, List.append_assoc, List.append_assoc, List.cons_append]⟩

end Emit

namespace Generate

variable {σ α : Type}

/-! ## Surveys -/

section Survey

variable [FileSystem σ] {fs : σ}

theorem readConfig_eq_ok {dir : Path} {config : Config} :
    (readConfig fs dir).result = .ok config ↔
      ∃ warnings, Config.load fs dir = .ok (config, warnings) := by
  simp [readConfig, Except.bind_eq_ok]

theorem result_isCurrent (path : Path) (f : Fingerprint) :
    (isCurrent fs path f).result = ((FileSystem.firstLine fs path).mapError .file).map fun line? =>
      line?.any fun line => f.matchesMarker (String.ofList line) := by
  rw [isCurrent, Traced.result_bind, Scan.ask, Traced.result_ofExcept]
  cases FileSystem.firstLine fs path with
  | error e => rfl
  | ok line? =>
    cases line? with
    | none => rfl
    | some line =>
      cases hmatches : f.matchesMarker (String.ofList line) <;>
        simp [Except.mapError, Except.map, hmatches]

/-- A class is current if its first line is the marker. -/
theorem isCurrent_eq_true {path : Path} {f : Fingerprint} :
    (isCurrent fs path f).result = .ok true ↔
      FileSystem.firstLine fs path = .ok (some f.markerLine.toList) := by
  rw [result_isCurrent]
  cases FileSystem.firstLine fs path with
  | error e => simp [Except.mapError, Except.map]
  | ok line? =>
    cases line? with
    | none => simp [Except.mapError, Except.map]
    | some line =>
      simp [Except.mapError, Except.map, Fingerprint.matchesMarker, ← String.toList_inj]

theorem survey_eq_ok {c : ClassName} {destination : Path} {catalog : Catalog α} {f : Fingerprint}
    {found : Survey α} :
    (survey fs c destination catalog f).result = .ok found ↔
      ∃ current, (isCurrent fs (c.sourcePath destination) f).result = .ok current ∧
        found = ⟨c, c.sourcePath destination, catalog, f, current⟩ := by
  simp only [survey, Traced.result_bind, Traced.result_note, Except.ok_bind, Except.bind_eq_ok]
  simp [eq_comm]

theorem surveyShaders_eq_ok {o : ShaderOptions} {found : Survey Shader} :
    (surveyShaders o fs).result = .ok found ↔
      ∃ c config catalog, (readClassName o.className).result = .ok c ∧
        (readConfig fs o.source).result = .ok config ∧
        (Scan.shaders fs o.source config.plainExtensions).result = .ok catalog ∧
        (survey fs c o.destination catalog
          (.ofShaders Emit.shaderSignature o.mode c catalog)).result = .ok found := by
  simp only [surveyShaders, Traced.result_bind, Except.bind_eq_ok, exists_and_left]

theorem surveyImages_eq_ok {o : ImageOptions} {config : Config} {c : ClassName}
    {found : Survey Image} :
    (surveyImages o config c fs).result = .ok found ↔
      ∃ catalog, (Scan.images fs o.source config.densityTable).result = .ok catalog ∧
        (survey fs c o.destination catalog
          (.ofImages Emit.imageSignature c o.scratch?.isSome catalog)).result = .ok found := by
  simp only [surveyImages, Traced.result_bind, Except.bind_eq_ok]

/-- What a survey of shaders has found fits together. -/
theorem of_surveyShaders {o : ShaderOptions} {found : Survey Shader}
    (h : (surveyShaders o fs).result = .ok found) :
    found.fingerprint = .ofShaders Emit.shaderSignature o.mode found.className found.catalog ∧
      (isCurrent fs found.path found.fingerprint).result = .ok found.isCurrent := by
  obtain ⟨c, config, catalog, -, -, -, hsurvey⟩ := surveyShaders_eq_ok.mp h
  obtain ⟨current, hcurrent, rfl⟩ := survey_eq_ok.mp hsurvey
  exact ⟨rfl, hcurrent⟩

/-- So has one of images; and the images are plain bitmaps. -/
theorem of_surveyImages {o : ImageOptions} {config : Config} {c : ClassName}
    {found : Survey Image} (h : (surveyImages o config c fs).result = .ok found) :
    found.className = c ∧
      found.fingerprint = .ofImages Emit.imageSignature c o.scratch?.isSome found.catalog ∧
      (isCurrent fs found.path found.fingerprint).result = .ok found.isCurrent ∧
      ∀ i ∈ found.catalog.assets, i.format = .bitmap := by
  obtain ⟨catalog, hscan, hsurvey⟩ := surveyImages_eq_ok.mp h
  obtain ⟨current, hcurrent, rfl⟩ := survey_eq_ok.mp hsurvey
  exact ⟨rfl, rfl, hcurrent, fun i hi => (Scan.of_mem_images hscan hi).2.2.2⟩

end Survey

/-! ## Successful runs -/

section Ends

variable {s s' : σ} {out : Outcome}

/-- A run for shaders that succeeds has found its class current and done nothing, or it has written
the class of what it found. -/
theorem shaders_ends_ok [FileSystem σ] {o : ShaderOptions} :
    (shaders o).Ends s (.ok out) s' ↔
      ∃ found, (surveyShaders o s).result = .ok found ∧
        (found.isCurrent = true ∧ out = found.outcome .skipped ∧ s' = s ∨
          found.isCurrent = false ∧ out = found.outcome .written ∧
            ∃ text, (Emit.shaders found.className o.mode found.catalog
                found.fingerprint).result = .ok text ∧
              FileSystem.write s found.path (Text.Utf8.encode text) = (.ok (), s')) := by
  rw [shaders, Job.ends_bind_ok]
  simp only [Job.ends_inspect, exists_and_left, and_assoc, exists_eq_left']
  refine exists_congr fun found => and_congr_right fun _ => ?_
  cases found.isCurrent with
  | true => simp [eq_comm]
  | false =>
    simp only [Bool.false_eq_true, if_false, false_and, false_or, true_and, Job.ends_bind_ok,
      Job.ends_lift, Traced.result_mapError, Except.mapError_eq_ok]
    constructor
    · rintro ⟨text, _, ⟨htext, rfl⟩, _, t, hwrite, _, _, ⟨-, rfl⟩, hout, rfl⟩
      exact ⟨(Except.ok.inj hout).symm, text, htext, Job.ends_write.mp hwrite⟩
    · rintro ⟨rfl, text, htext, hwrite⟩
      exact ⟨text, s, ⟨htext, rfl⟩, (), s', Job.ends_write.mpr hwrite, (), s', ⟨rfl, rfl⟩, rfl, rfl⟩

/-- The images as the class of a run is to hold them. -/
def finalCatalog [FileSystem σ] (chosen : Option (Cruncher σ × Path)) (source : Path)
    (catalog : Catalog Image) : Job σ (Catalog Image) :=
  match chosen with
  | none => pure catalog
  | some (cruncher, scratch) => crunch cruncher source scratch catalog

/-- Writes the class of images as they are to be. -/
def writeImages [FileSystem σ] (c : ClassName) (found : Survey Image) (catalog : Catalog Image) :
    Job σ Outcome := do
  let text ← Job.lift ((Emit.imageClass c catalog found.fingerprint).mapError .unsupported)
  Job.write found.path (Text.Utf8.encode text)
  Job.note .info "wrote images"
    [("path", found.path.text), ("images", toString found.catalog.size)]
  return found.outcome .written

/-- The text of the class is always there, so all that can fail is to put it into place. -/
theorem writeImages_ends [FileSystem σ] {c : ClassName} {found : Survey Image}
    {catalog : Catalog Image} {r : Except RunError Outcome} :
    (writeImages c found catalog).Ends s r s' ↔
      (do Job.write found.path (Text.Utf8.encode (Emit.images c catalog found.fingerprint))
          Job.note .info "wrote images"
            [("path", found.path.text), ("images", toString found.catalog.size)]
          return found.outcome .written : Job σ Outcome).Ends s r s' := by
  rw [writeImages, Job.ends_lift_bind, Traced.result_mapError, Emit.imageClass_eq_ok]
  rfl

theorem writeImages_ends_ok [FileSystem σ] {c : ClassName} {found : Survey Image}
    {catalog : Catalog Image} :
    (writeImages c found catalog).Ends s (.ok out) s' ↔ out = found.outcome .written ∧
      FileSystem.write s found.path
        (Text.Utf8.encode (Emit.images c catalog found.fingerprint)) = (.ok (), s') := by
  rw [writeImages_ends]
  simp only [Job.ends_bind_ok]
  constructor
  · rintro ⟨_, t, hwrite, _, _, ⟨-, rfl⟩, hout, rfl⟩
    exact ⟨(Except.ok.inj hout).symm, Job.ends_write.mp hwrite⟩
  · rintro ⟨rfl, hwrite⟩
    exact ⟨(), s', Job.ends_write.mpr hwrite, (), s', ⟨rfl, rfl⟩, rfl, rfl⟩

/-- A run for images, with one end for both kinds of catalog. -/
theorem images_eq [Machine σ] (o : ImageOptions) (env : ToolEnv) (given : Option (Cruncher σ)) :
    images o env given = (do
      let c ← Job.lift (readClassName o.className)
      let config ← Job.inspect fun fs => readConfig fs o.source
      let chosen ← Job.inspect (chooseCruncher o given env config)
      let found ← Job.inspect (surveyImages o config c)
      if found.isCurrent then return found.outcome .skipped
      let catalog ← finalCatalog chosen o.source found.catalog
      writeImages c found catalog) := by
  unfold images
  congr 1
  funext c
  congr 1
  funext config
  congr 1
  funext chosen
  cases chosen <;> rfl

/-- A run for images that succeeds has found its class current and done nothing, or it has written
the class of what it found, or of what crunching made of that. -/
theorem images_ends_ok [Machine σ] {o : ImageOptions} {env : ToolEnv}
    {given : Option (Cruncher σ)} :
    (images o env given).Ends s (.ok out) s' ↔
      ∃ c config chosen found, (readClassName o.className).result = .ok c ∧
        (readConfig s o.source).result = .ok config ∧
        (chooseCruncher o given env config s).result = .ok chosen ∧
        (surveyImages o config c s).result = .ok found ∧
        (found.isCurrent = true ∧ out = found.outcome .skipped ∧ s' = s ∨
          found.isCurrent = false ∧
            ∃ catalog t, (finalCatalog chosen o.source found.catalog).Ends s (.ok catalog) t ∧
              out = found.outcome .written ∧ FileSystem.write t found.path
                (Text.Utf8.encode (Emit.images c catalog found.fingerprint)) = (.ok (), s')) := by
  simp only [images_eq, Job.ends_bind_ok, Job.ends_inspect, Job.ends_lift, and_assoc,
    exists_and_left, exists_eq_left']
  refine exists_congr fun c => and_congr_right fun _ => exists_congr fun config =>
    and_congr_right fun _ => exists_congr fun chosen => and_congr_right fun _ =>
    exists_congr fun found => and_congr_right fun _ => ?_
  cases found.isCurrent with
  | true => simp [eq_comm]
  | false => simp [Job.ends_bind_ok, writeImages_ends_ok]

end Ends

/-! ## Both kinds of run -/

/-- A run of either kind, with all that it is given. -/
inductive Run (σ : Type) where
  | shaders (o : ShaderOptions)
  | images (o : ImageOptions) (env : ToolEnv) (given : Option (Cruncher σ))

namespace Run

/-- The job that the run is. -/
def job [Machine σ] : Run σ → Job σ Outcome
  | .shaders o => Generate.shaders o
  | .images o env given => Generate.images o env given

/-- The directory that the run looks for assets in. -/
def source : Run σ → Path
  | .shaders o => o.source
  | .images o _ _ => o.source

end Run

end Generate

end AssetPack
