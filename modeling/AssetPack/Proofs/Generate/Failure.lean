import AssetPack.Host.Machine
import AssetPack.Proofs.Generate.Again
import AssetPack.Proofs.Generate.Current

/-!
# What a run leaves behind when it fails

A run looks first and changes afterwards. For shaders the only change is to put the finished class
into place, so any other failure leaves the state alone; for images there may be a scratch
directory and what the cruncher has done, and nothing else (`failure_is_atomic`).

The state and its operations are arbitrary here: a state may count its changes, refuse any of them,
or fail in ways that files in memory do not have. What is said of the state in which a run ends is
therefore said of the operations that led to it. A job that is equal to a `lift` asks nothing of its
state at all.

The way is the one of `shaders_ends_ok` and `images_ends_ok`, for the other kind of end: each early
exit is one alternative of a `bind`, and all of them before the first change are collected in one
look (`surveyShaders`, `prepareImages`).
-/

set_option autoImplicit false

namespace AssetPack.Generate

variable {σ : Type} {s s' : σ} {e : RunError}

/-! ## Ends -/

/-- The run has tried to put a class into place, and has ended as that did. -/
def Puts [FileSystem σ] (path : Path) (text : List Char) (out : Outcome) (s : σ)
    (r : Except RunError Outcome) (s' : σ) : Prop :=
  ∃ answer, FileSystem.write s path (Text.Utf8.encode text) = (answer, s') ∧
    r = (answer.mapError .file).map fun _ => out

/-- The state that crunching leaves: with the scratch directory, as far as that can be made, and
with what the cruncher has done. -/
def leftByCrunching [FileSystem σ] (chosen : Option (Cruncher σ × Path)) (source : Path) (s : σ) :
    σ :=
  match chosen with
  | none => s
  | some (cruncher, scratch) =>
    match FileSystem.createDirs s scratch with
    | (.error _, t) => t
    | (.ok (), t) => ((cruncher source scratch).run t).2

/-- Putting a class into place is the last thing that can fail. -/
theorem write_ends_error [FileSystem σ] {path : Path} {bytes : List UInt8} {level : LogLevel}
    {message : String} {fields : List (String × String)} {out : Outcome} :
    (do Job.write path bytes
        Job.note level message fields
        return out : Job σ Outcome).Ends s (.error e) s' ↔
      ∃ cause, FileSystem.write s path bytes = (.error cause, s') ∧ e = .file cause := by
  rw [Job.ends_bind_error]
  constructor
  · rintro (hwrite | ⟨_, _, -, hreport⟩)
    · exact Job.ends_change_error.mp hwrite
    · cases hreport.1
  · intro hwrite
    exact .inl (Job.ends_change_error.mpr hwrite)

/-! ## Shaders -/

/-- A run for shaders that fails has done so while it looked, because the class cannot be written
down, or when it put the class into place. -/
theorem shaders_ends_error [FileSystem σ] {o : ShaderOptions} :
    (shaders o).Ends s (.error e) s' ↔
      (surveyShaders o s).result = .error e ∧ s' = s ∨
      ∃ found, (surveyShaders o s).result = .ok found ∧ found.isCurrent = false ∧
        ((∃ cause, (Emit.shaders found.className o.mode found.catalog
            found.fingerprint).result = .error cause ∧ e = .unsupported cause ∧ s' = s) ∨
          ∃ text, (Emit.shaders found.className o.mode found.catalog
              found.fingerprint).result = .ok text ∧
            ∃ cause, FileSystem.write s found.path (Text.Utf8.encode text) = (.error cause, s') ∧
              e = .file cause) := by
  rw [shaders, Job.ends_inspect_bind_error]
  refine or_congr_right (exists_congr fun found => and_congr_right fun _ => ?_)
  cases found.isCurrent with
  | true => simp
  | false =>
    simp only [Bool.false_eq_true, if_false, true_and, Job.ends_lift_bind_error, write_ends_error,
      Traced.result_mapError, Except.mapError_eq_error, Except.mapError_eq_ok]
    refine or_congr_left ?_
    constructor
    · rintro ⟨⟨cause, hcause, he⟩, hs⟩
      exact ⟨cause, hcause, he, hs⟩
    · rintro ⟨cause, hcause, he, hs⟩
      exact ⟨⟨cause, hcause, he⟩, hs⟩

/-! ## Images -/

/-- What a run for images does before its first change: it chooses a cruncher, with the directory
to crunch into, and finds out the rest. -/
def prepareImages [Machine σ] (o : ImageOptions) (env : ToolEnv) (given : Option (Cruncher σ))
    (fs : σ) : Traced RunError (Option (Cruncher σ × Path) × Survey Image) := do
  let c ← readClassName o.className
  let config ← readConfig fs o.source
  let chosen ← chooseCruncher o given env config fs
  let found ← surveyImages o config c fs
  return (chosen, found)

/-- A run for images that fails has done so while it looked, while it crunched, or when it put the
class into place. -/
theorem images_ends_error [Machine σ] {o : ImageOptions} {env : ToolEnv}
    {given : Option (Cruncher σ)} (h : (images o env given).Ends s (.error e) s') :
    (prepareImages o env given s).result = .error e ∧ s' = s ∨
    ∃ chosen found, (prepareImages o env given s).result = .ok (chosen, found) ∧
      found.isCurrent = false ∧
      ((finalCatalog chosen o.source found.catalog).Ends s (.error e) s' ∨
        ∃ catalog t, (finalCatalog chosen o.source found.catalog).Ends s (.ok catalog) t ∧
          ∃ cause, FileSystem.write t found.path (Text.Utf8.encode
              (Emit.images found.className catalog found.fingerprint)) = (.error cause, s') ∧
            e = .file cause) := by
  rw [images_eq] at h
  simp only [prepareImages, Traced.result_bind, Traced.result_pure]
  rcases Job.ends_lift_bind_error.mp h with ⟨hc, rfl⟩ | ⟨c, hc, h⟩ <;> rw [hc]
  · exact .inl ⟨rfl, rfl⟩
  rcases Job.ends_inspect_bind_error.mp h with ⟨hconfig, rfl⟩ | ⟨config, hconfig, h⟩ <;>
    rw [Except.ok_bind, hconfig]
  · exact .inl ⟨rfl, rfl⟩
  rcases Job.ends_inspect_bind_error.mp h with ⟨hchosen, rfl⟩ | ⟨chosen, hchosen, h⟩ <;>
    rw [Except.ok_bind, hchosen]
  · exact .inl ⟨rfl, rfl⟩
  rcases Job.ends_inspect_bind_error.mp h with ⟨hfound, rfl⟩ | ⟨found, hfound, h⟩ <;>
    rw [Except.ok_bind, hfound]
  · exact .inl ⟨rfl, rfl⟩
  obtain ⟨rfl, -⟩ := of_surveyImages hfound
  refine .inr ⟨chosen, found, rfl, ?_⟩
  cases hcurrent : found.isCurrent with
  | true =>
    rw [hcurrent] at h
    cases h.1
  | false =>
    rw [hcurrent] at h
    refine ⟨rfl, ?_⟩
    rcases Job.ends_bind_error.mp h with hcrunch | ⟨catalog, t, hcatalog, h⟩
    · exact .inl hcrunch
    · exact .inr ⟨catalog, t, hcatalog, write_ends_error.mp (writeImages_ends.mp h)⟩

/-- However crunching ends, nothing has been done besides: what came of the images is only read. -/
theorem eq_leftByCrunching [FileSystem σ] {chosen : Option (Cruncher σ × Path)} {source : Path}
    {catalog : Catalog Image} {r : Except RunError (Catalog Image)}
    (h : (finalCatalog chosen source catalog).Ends s r s') :
    s' = leftByCrunching chosen source s := by
  cases chosen with
  | none => exact h.2.symm
  | some chosen =>
    obtain ⟨cruncher, scratch⟩ := chosen
    cases r with
    | ok final =>
      obtain ⟨t, hdirs, h⟩ := Job.ends_seq_ok.mp h
      obtain ⟨t', hcrunch, hread⟩ := Job.ends_seq_ok.mp h
      obtain ⟨-, rfl⟩ := Job.ends_inspect.mp hread
      rw [leftByCrunching, Job.ends_createDirs.mp hdirs]
      exact hcrunch.2.symm
    | error e =>
      rcases Job.ends_bind_error.mp h with hdirs | ⟨_, t, hdirs, h⟩
      · obtain ⟨cause, hdirs, -⟩ := Job.ends_change_error.mp hdirs
        rw [leftByCrunching, hdirs]
      · rw [leftByCrunching, Job.ends_createDirs.mp hdirs]
        rcases Job.ends_bind_error.mp h with hcrunch | ⟨_, _, hcrunch, hread⟩
        · exact hcrunch.2.symm
        · obtain ⟨-, rfl⟩ := Job.ends_inspect.mp hread
          exact hcrunch.2.symm

/-! ## Names that are refused -/

/-- A job whose first step has failed without a look is that failure. -/
theorem lift_throw_bind {α β : Type} (e : RunError) (f : α → Job σ β) :
    (Job.lift (throw e) >>= f) = Job.lift (throw e) :=
  rfl

theorem readClassName_of_parse_error {name : String} {cause : ClassNameError}
    (h : ClassName.parse name = .error cause) : readClassName name = throw (.className cause) := by
  rw [readClassName, h]
  rfl

theorem shaders_of_parse_error [FileSystem σ] {o : ShaderOptions} {cause : ClassNameError}
    (h : ClassName.parse o.className = .error cause) :
    (shaders o : Job σ Outcome) = Job.lift (throw (.className cause)) := by
  have hsurvey : surveyShaders o = fun _ : σ => throw (.className cause) := by
    funext fs
    rw [surveyShaders, readClassName_of_parse_error h]
    rfl
  rw [shaders, hsurvey]
  exact lift_throw_bind _ _

theorem images_of_parse_error [Machine σ] {o : ImageOptions} {env : ToolEnv}
    {given : Option (Cruncher σ)} {cause : ClassNameError}
    (h : ClassName.parse o.className = .error cause) :
    images o env given = Job.lift (throw (.className cause)) := by
  rw [images, readClassName_of_parse_error h]
  exact lift_throw_bind _ _

/-! ## Every end -/

/-- A run for shaders has changed nothing, or it has tried to put into place the whole class of what
it found, and has ended as that did. -/
theorem shaders_changes [FileSystem σ] {o : ShaderOptions} {r : Except RunError Outcome}
    (h : (shaders o).Ends s r s') :
    (s' = s ∧ ∀ out, r = .ok out → out.status = .skipped) ∨
    ∃ c text out, ClassName.parse o.className = .ok c ∧
      (Run.shaders o : Run σ).emitted s = .ok text ∧ out.status = .written ∧
      Puts (c.sourcePath o.destination) text out s r s' := by
  have hemitted : ∀ {found : Survey Shader} {text : List Char},
      (surveyShaders o s).result = .ok found →
      (Emit.shaders found.className o.mode found.catalog found.fingerprint).result = .ok text →
      ∃ c, ClassName.parse o.className = .ok c ∧ found.path = c.sourcePath o.destination ∧
        (Run.shaders o : Run σ).emitted s = .ok text := by
    intro found text hfound htext
    obtain ⟨c, config, catalog, hc, -, -, hsurvey⟩ := surveyShaders_eq_ok.mp hfound
    obtain ⟨current, -, rfl⟩ := survey_eq_ok.mp hsurvey
    refine ⟨c, Except.mapError_eq_ok.mp hc, rfl, ?_⟩
    simpa only [Run.emitted, hfound, Except.ok_bind, Except.mapError_eq_ok] using htext
  cases r with
  | ok out =>
    obtain ⟨found, hfound, ⟨-, rfl, rfl⟩ | ⟨-, rfl, text, htext, hwrite⟩⟩ := shaders_ends_ok.mp h
    · refine .inl ⟨rfl, ?_⟩
      intro out hout
      cases hout
      rfl
    · obtain ⟨c, hc, hpath, htext⟩ := hemitted hfound htext
      exact .inr ⟨c, text, _, hc, htext, rfl, .ok (), hpath ▸ hwrite, rfl⟩
  | error e =>
    rcases shaders_ends_error.mp h with ⟨-, rfl⟩ | ⟨found, hfound, -, hfailed⟩
    · exact .inl ⟨rfl, fun out hout => by cases hout⟩
    · obtain ⟨cause, -, -, rfl⟩ | ⟨text, htext, cause, hwrite, rfl⟩ := hfailed
      · exact .inl ⟨rfl, fun out hout => by cases hout⟩
      · obtain ⟨c, hc, hpath, htext⟩ := hemitted hfound htext
        exact .inr ⟨c, text, found.outcome .written, hc, htext, rfl, .error cause, hpath ▸ hwrite,
          rfl⟩

/-- A run for images that fails has changed nothing, or it has crunched and done nothing else, or it
has tried to put into place a class and has ended as that did. -/
theorem images_changes [Machine σ] {o : ImageOptions} {env : ToolEnv}
    {given : Option (Cruncher σ)} (h : (images o env given).Ends s (.error e) s') :
    (prepareImages o env given s).result = .error e ∧ s' = s ∨
    ∃ chosen found, (prepareImages o env given s).result = .ok (chosen, found) ∧
      (chosen ≠ none ∧ s' = leftByCrunching chosen o.source s ∨
        ∃ text out, Puts found.path text out (leftByCrunching chosen o.source s) (.error e) s') := by
  refine (images_ends_error h).imp_right ?_
  rintro ⟨chosen, found, hfound, -, hend⟩
  refine ⟨chosen, found, hfound, ?_⟩
  rcases hend with hcrunch | ⟨catalog, t, hcatalog, cause, hwrite, rfl⟩
  · refine .inl ⟨?_, eq_leftByCrunching hcrunch⟩
    rintro rfl
    cases hcrunch.1
  · obtain rfl := eq_leftByCrunching hcatalog
    exact .inr ⟨_, found.outcome .written, .error cause, hwrite, rfl⟩

theorem path_of_prepareImages [Machine σ] {o : ImageOptions} {env : ToolEnv}
    {given : Option (Cruncher σ)} {chosen : Option (Cruncher σ × Path)} {found : Survey Image}
    (h : (prepareImages o env given s).result = .ok (chosen, found)) :
    ClassName.parse o.className = .ok found.className ∧
      found.path = found.className.sourcePath o.destination := by
  simp only [prepareImages, Traced.result_bind, Except.bind_eq_ok] at h
  obtain ⟨c, hc, config, -, chosen', -, found', hfound, hpair⟩ := h
  cases hpair
  obtain ⟨catalog, -, hsurvey⟩ := surveyImages_eq_ok.mp hfound
  obtain ⟨current, -, rfl⟩ := survey_eq_ok.mp hsurvey
  exact ⟨Except.mapError_eq_ok.mp hc, rfl⟩

/-- **Failure is atomic.** A run for shaders makes at most one change: it tries to put into place the
whole class of what it found, and fails after that only if that failed. A run for images that fails
before it crunches has changed nothing; later it has crunched and done nothing else, unless it got
as far as putting the class into place and that failed. And a run whose class name is refused is the
refusal, whatever there is to look at. -/
theorem failure_is_atomic [Machine σ] :
    (∀ (o : ShaderOptions) (s s' : σ) (r : Except RunError Outcome), (shaders o).Ends s r s' →
      (s' = s ∧ ∀ out, r = .ok out → out.status = .skipped) ∨
      ∃ c text out, ClassName.parse o.className = .ok c ∧
        (Run.shaders o : Run σ).emitted s = .ok text ∧ out.status = .written ∧
        Puts (c.sourcePath o.destination) text out s r s') ∧
    (∀ (o : ImageOptions) (env : ToolEnv) (given : Option (Cruncher σ)) (s s' : σ) (e : RunError),
      (images o env given).Ends s (.error e) s' →
      (prepareImages o env given s).result = .error e ∧ s' = s ∨
      ∃ chosen found, (prepareImages o env given s).result = .ok (chosen, found) ∧
        ClassName.parse o.className = .ok found.className ∧
        (chosen ≠ none ∧ s' = leftByCrunching chosen o.source s ∨
          ∃ text out, Puts (found.className.sourcePath o.destination) text out
            (leftByCrunching chosen o.source s) (.error e) s')) ∧
    ∀ (name : String) (cause : ClassNameError), ClassName.parse name = .error cause →
      (∀ o : ShaderOptions, o.className = name →
        (shaders o : Job σ Outcome) = Job.lift (throw (.className cause))) ∧
      ∀ (o : ImageOptions) (env : ToolEnv) (given : Option (Cruncher σ)), o.className = name →
        images o env given = Job.lift (throw (.className cause)) := by
  refine ⟨fun o s s' r => shaders_changes, ?_, ?_⟩
  · intro o env given s s' e h
    refine (images_changes h).imp_right ?_
    rintro ⟨chosen, found, hfound, hend⟩
    obtain ⟨hc, hpath⟩ := path_of_prepareImages hfound
    exact ⟨chosen, found, hfound, hc, hpath ▸ hend⟩
  · intro name cause h
    constructor
    · rintro o rfl
      exact shaders_of_parse_error h
    · rintro o env given rfl
      exact images_of_parse_error h

namespace Stopped

/-- Shaders of which one is no text. -/
def shaderOptions : ShaderOptions := ⟨⟨"/src"⟩, ⟨"/gen"⟩, "p.Shaders", .debug⟩

/-- Images to be crunched. -/
def imageOptions : ImageOptions := ⟨⟨"/src"⟩, ⟨"/gen"⟩, "p.Images", some ⟨"/tmp"⟩⟩

/-- A cruncher that takes all files, not only images. -/
def cruncher : Cruncher Memory := .stamping addFile [0] []

/-- A file that cannot be read stands behind an image, where only a cruncher meets it. -/
def start : Memory :=
  { Memory.empty with
    files := [(⟨"/src/a.png"⟩, [1]), (⟨"/src/notes.txt"⟩, []), (⟨"/src/tap.fsh"⟩, [0xFF])]
    faults := [(⟨"/src/notes.txt"⟩, .permissionDenied)]
    ordered := by decide +kernel }

end Stopped

/-- One shader is no text, one file stops the cruncher half way, one name is no class name. -/
theorem failure_is_atomic_stopped :
    (∃ e m', (shaders Stopped.shaderOptions).Ends Stopped.start (.error e) m' ∧
      (m' = Stopped.start ∨ ∃ path text out, Puts path text out Stopped.start (.error e) m')) ∧
    (∃ e m', (images Stopped.imageOptions .empty (some Stopped.cruncher)).Ends Stopped.start
        (.error e) m' ∧ m'.find? ⟨"/tmp/a.png"⟩ = some [0, 1] ∧
      ∃ chosen, (chosen ≠ none ∧ m' = leftByCrunching chosen ⟨"/src"⟩ Stopped.start ∨
        ∃ path text out, Puts path text out (leftByCrunching chosen ⟨"/src"⟩ Stopped.start)
          (.error e) m')) ∧
    ∃ cause, ClassName.parse "p..S" = .error cause ∧
      (shaders ⟨⟨"/src"⟩, ⟨"/gen"⟩, "p..S", .debug⟩ : Job Memory Outcome) =
        Job.lift (throw (.className cause)) := by
  obtain ⟨hshaders, himages, hnames⟩ := failure_is_atomic (σ := Memory)
  refine ⟨?_, ?_, ?_⟩
  · obtain ⟨e, he⟩ : ∃ e, ((shaders Stopped.shaderOptions).run Stopped.start).1.result = .error e :=
      ⟨.unsupported ⟨"tap.fsh", .notText (.malformed 1 0)⟩, by decide +kernel⟩
    refine ⟨e, _, ⟨he, rfl⟩, ?_⟩
    rcases hshaders _ _ _ _ ⟨he, rfl⟩ with ⟨hsame, -⟩ | ⟨c, text, out, -, -, -, hputs⟩
    · exact .inl hsame
    · exact .inr ⟨_, text, out, hputs⟩
  · obtain ⟨e, he⟩ : ∃ e, ((images Stopped.imageOptions .empty (some Stopped.cruncher)).run
        Stopped.start).1.result = .error e :=
      ⟨.file (.permissionDenied ⟨"/src/notes.txt"⟩), by decide +kernel⟩
    have hcrunched : ((images Stopped.imageOptions .empty (some Stopped.cruncher)).run
        Stopped.start).2.find? ⟨"/tmp/a.png"⟩ = some [0, 1] := by
      decide +kernel
    refine ⟨e, _, ⟨he, rfl⟩, hcrunched, ?_⟩
    rcases himages _ _ _ _ _ _ ⟨he, rfl⟩ with ⟨-, hsame⟩ | ⟨chosen, found, -, -, hend⟩
    · rw [hsame] at hcrunched
      exact absurd hcrunched (by decide +kernel)
    · exact ⟨chosen, hend.imp_right fun ⟨text, out, hputs⟩ => ⟨_, text, out, hputs⟩⟩
  · obtain ⟨cause, hcause⟩ : ∃ cause, ClassName.parse "p..S" = .error cause :=
      ⟨⟨"p..S", .emptySegment⟩, by decide +kernel⟩
    exact ⟨cause, hcause, (hnames _ cause hcause).1 _ rfl⟩

end AssetPack.Generate
