import AssetPack.Proofs.Config.Tool
import AssetPack.Proofs.Generate.Failure

/-!
# What a run is up to

A run that does not crunch makes one change at most, and makes it when it has looked at everything.
What it has decided on by then is its *plan*: to stop with some result, or to put a class into place
(`ends_iff_plan`). To compare two such runs it is enough to compare their plans.

A plan depends on little: on the settings but for the crunch tool, on the files that are selected,
and on the first line of the class that is there already (`LooksSame`, `plan_congr`).
-/

set_option autoImplicit false

namespace AssetPack

namespace Generate

variable {σ α : Type} {s s' : σ}

/-! ## Plans -/

/-- What a run has decided on before its first change. -/
inductive Plan where
  | stop (r : Except RunError Outcome)
  | put (path : Path) (text : List Char) (out : Outcome)

/-- The plan, followed in the first state, ends with the result in the second one. -/
def Plan.Ends [FileSystem σ] (plan : Plan) (s : σ) (r : Except RunError Outcome) (s' : σ) : Prop :=
  match plan with
  | .stop decided => r = decided ∧ s' = s
  | .put path text out => Puts path text out s r s'

/-- The plan for what was found, and the text of its class. -/
def Plan.ofSurvey (found : Survey α) (text : Except RunError (List Char)) : Plan :=
  if found.isCurrent then .stop (.ok (found.outcome .skipped))
  else
    match text with
    | .error e => .stop (.error e)
    | .ok text => .put found.path text (found.outcome .written)

/-- The plan of a run for shaders. -/
def planShaders [FileSystem σ] (o : ShaderOptions) (fs : σ) : Plan :=
  match (surveyShaders o fs).result with
  | .error e => .stop (.error e)
  | .ok found =>
    .ofSurvey found ((Emit.shaders found.className o.mode found.catalog
      found.fingerprint).result.mapError .unsupported)

/-- The plan of a run for images that are taken as they are. -/
def planImages [FileSystem σ] (o : ImageOptions) (fs : σ) : Plan :=
  match (lookAtImages o fs).result with
  | .error e => .stop (.error e)
  | .ok found =>
    .ofSurvey found (.ok (Emit.images found.className found.catalog found.fingerprint))

/-- The plan of a run, for images as they are. -/
def Run.plan [FileSystem σ] (fs : σ) : Run σ → Plan
  | .shaders o => planShaders o fs
  | .images o _ _ => planImages o fs

/-! ## Ends -/

/-- What is put into place last decides the result. -/
theorem write_ends_iff [FileSystem σ] {path : Path} {text : List Char} {level : LogLevel}
    {message : String} {fields : List (String × String)} {out : Outcome}
    {r : Except RunError Outcome} :
    (do Job.write path (Text.Utf8.encode text)
        Job.note level message fields
        return out : Job σ Outcome).Ends s r s' ↔ Puts path text out s r s' := by
  unfold Puts
  rcases hwrite : FileSystem.write s path (Text.Utf8.encode text) with ⟨_ | _, t⟩
  case error cause =>
    have hends : (Job.write path (Text.Utf8.encode text)).Ends s (.error (.file cause)) t :=
      Job.ends_change_error.mpr ⟨cause, hwrite, rfl⟩
    rw [Job.ends_bind_of_error hends]
    simp [Except.mapError, Except.map, and_comm, eq_comm]
  case ok =>
    rw [Job.ends_bind_of_ok (Job.ends_write.mpr hwrite)]
    change Except.ok out = r ∧ t = s' ↔ _
    simp [Except.mapError, Except.map, and_comm, eq_comm]

theorem writeImages_ends_iff [FileSystem σ] {c : ClassName} {found : Survey Image}
    {catalog : Catalog Image} {r : Except RunError Outcome} :
    (writeImages c found catalog).Ends s r s' ↔
      Puts found.path (Emit.images c catalog found.fingerprint) (found.outcome .written) s r s' :=
  writeImages_ends.trans write_ends_iff

/-- A run for images whose looks are taken together, for a cruncher that is chosen already. -/
def carryOut [FileSystem σ] (o : ImageOptions) (chosen : Option (Cruncher σ × Path)) :
    Job σ Outcome := do
  let found ← Job.inspect (lookAtImages o)
  if found.isCurrent then return found.outcome .skipped
  let catalog ← finalCatalog chosen o.source found.catalog
  writeImages found.className found catalog

/-- Once a cruncher is chosen, or none, it does not matter any more how. -/
theorem images_ends_iff [Machine σ] {o : ImageOptions} {env : ToolEnv}
    {given : Option (Cruncher σ)} {chosen : Option (Cruncher σ × Path)}
    {r : Except RunError Outcome} (hchosen : ∀ config, (readConfig s o.source).result = .ok config →
      (chooseCruncher o given env config s).result = .ok chosen) :
    (images o env given).Ends s r s' ↔ (carryOut o chosen).Ends s r s' := by
  rw [images_eq, carryOut, Job.ends_lift_bind, Job.ends_inspect_bind]
  -- The two take the same looks in the same order, and the choice in between leaves the state alone.
  simp only [lookAtImages, Traced.result_bind]
  cases (readClassName o.className).result with
  | error e => rfl
  | ok c =>
    simp only [Except.ok_bind, Job.ends_inspect_bind]
    cases hconfig : (readConfig s o.source).result with
    | error e => rfl
    | ok config =>
      simp only [Except.ok_bind, hchosen config hconfig]
      cases hfound : (surveyImages o config c s).result with
      | error e => rfl
      | ok found =>
        obtain ⟨rfl, -⟩ := of_surveyImages hfound
        rfl

theorem carryOut_none_ends_iff [FileSystem σ] {o : ImageOptions} {r : Except RunError Outcome} :
    (carryOut o none).Ends s r s' ↔ (planImages o s).Ends s r s' := by
  rw [carryOut, Job.ends_inspect_bind, planImages]
  cases (lookAtImages o s).result with
  | error e => rfl
  | ok found =>
    cases hcurrent : found.isCurrent with
    | true =>
      simp only [Plan.ofSurvey, hcurrent, if_true]
      exact and_congr eq_comm eq_comm
    | false =>
      simp only [Plan.ofSurvey, hcurrent, Bool.false_eq_true, if_false]
      exact writeImages_ends_iff

theorem shaders_ends_iff [FileSystem σ] {o : ShaderOptions} {r : Except RunError Outcome} :
    (shaders o).Ends s r s' ↔ (planShaders o s).Ends s r s' := by
  rw [shaders, Job.ends_inspect_bind, planShaders]
  cases (surveyShaders o s).result with
  | error e => rfl
  | ok found =>
    cases hcurrent : found.isCurrent with
    | true =>
      simp only [Plan.ofSurvey, hcurrent, if_true]
      exact and_congr eq_comm eq_comm
    | false =>
      simp only [Plan.ofSurvey, hcurrent, Bool.false_eq_true, if_false, Job.ends_lift_bind,
        Traced.result_mapError]
      cases (Emit.shaders found.className o.mode found.catalog found.fingerprint).result with
      | error cause => rfl
      | ok text => exact write_ends_iff

/-- **A run that does not crunch does what it has planned.** -/
theorem ends_iff_plan [Machine σ] {run : Run σ} (hcrunches : run.crunches = false)
    {r : Except RunError Outcome} : run.job.Ends s r s' ↔ (run.plan s).Ends s r s' := by
  cases run with
  | shaders o => exact shaders_ends_iff
  | images o env given =>
    have hnone : o.scratch? = none := by simpa [Run.crunches] using hcrunches
    exact (images_ends_iff fun _ _ => by simp [chooseCruncher, hnone]).trans carryOut_none_ends_iff

/-- Two runs have come to the same: the results are the same, and either both have left everything
as it was, or both have tried to put the same bytes into the same place, with the same answer. -/
def EndAlike [FileSystem σ] (s : σ) (r : Except RunError Outcome) (s' t : σ)
    (r' : Except RunError Outcome) (t' : σ) : Prop :=
  r' = r ∧ (s' = s ∧ t' = t ∨ ∃ path bytes answer,
    FileSystem.write s path bytes = (answer, s') ∧ FileSystem.write t path bytes = (answer, t'))

/-- One plan, followed in two states, comes to the same if these answer alike to its write. -/
theorem Plan.Ends.alike [FileSystem σ] {plan : Plan} {t t' : σ} {r r' : Except RunError Outcome}
    (h : plan.Ends s r s') (h' : plan.Ends t r' t')
    (hanswer : ∀ path text out, plan = .put path text out → ∀ bytes,
      (FileSystem.write t path bytes).1 = (FileSystem.write s path bytes).1) :
    EndAlike s r s' t r' t' := by
  cases plan with
  | stop decided =>
    obtain ⟨rfl, rfl⟩ := h
    obtain ⟨rfl, rfl⟩ := h'
    exact ⟨rfl, .inl ⟨rfl, rfl⟩⟩
  | put path text out =>
    obtain ⟨answer, hwrite, rfl⟩ := h
    obtain ⟨answer', hwrite', rfl⟩ := h'
    obtain rfl : answer' = answer := by
      simpa only [hwrite, hwrite'] using hanswer path text out rfl (Text.Utf8.encode text)
    exact ⟨rfl, .inr ⟨path, _, answer', hwrite, hwrite'⟩⟩

/-! ## What a plan depends on -/

namespace Run

/-- The text that is to be the name of the class. -/
def className : Run σ → String
  | .shaders o => o.className
  | .images o _ _ => o.className

/-- The directory that the class is put into, with one for each part of its package. -/
def destination : Run σ → Path
  | .shaders o => o.destination
  | .images o _ _ => o.destination

/-- Whether a name is that of an asset for the run, under some settings. -/
def wanted (config : Config) : Run σ → String → Bool
  | .shaders _ => Scan.isShaderName config.plainExtensions
  | .images _ _ _ => fun name => (Scan.imageBase? name).isSome

end Run

/-- The two states look the same to a run that does not crunch. -/
structure LooksSame [FileSystem σ] (run : Run σ) (fs fs' : σ) : Prop where
  config : (Config.load fs' run.source).map (fun p => p.1.sansTool) =
    (Config.load fs run.source).map fun p => p.1.sansTool
  selection : ∀ config warnings, Config.load fs run.source = .ok (config, warnings) →
    Scan.SameSelection run.source (run.wanted config) fs fs'
  output : ∀ c, ClassName.parse run.className = .ok c →
    FileSystem.firstLine fs' (c.sourcePath run.destination) =
      FileSystem.firstLine fs (c.sourcePath run.destination)

theorem result_readConfig [FileSystem σ] (fs : σ) (dir : Path) :
    (readConfig fs dir).result = (Config.load fs dir).map Prod.fst := by
  simp only [readConfig, Traced.result_bind, Traced.result_ofExcept]
  cases Config.load fs dir <;> rfl

theorem survey_congr [FileSystem σ] {fs fs' : σ} {c : ClassName} {destination : Path}
    (h : FileSystem.firstLine fs' (c.sourcePath destination) =
      FileSystem.firstLine fs (c.sourcePath destination))
    (catalog : Catalog α) (f : Fingerprint) :
    (survey fs' c destination catalog f).result = (survey fs c destination catalog f).result := by
  simp only [survey, Traced.result_bind, result_isCurrent, h]

/-- A look that begins with the class name and the settings and goes on alike ends alike. -/
theorem look_congr [FileSystem σ] {run : Run σ} {fs fs' : σ} (h : LooksSame run fs fs')
    {look look' : ClassName → Config → Traced RunError α}
    (hlook : ∀ c config config', config'.sansTool = config.sansTool →
      FileSystem.firstLine fs' (c.sourcePath run.destination) =
        FileSystem.firstLine fs (c.sourcePath run.destination) →
      Scan.SameSelection run.source (run.wanted config) fs fs' →
      (look' c config').result = (look c config).result) :
    (do let c ← readClassName run.className
        let config ← readConfig fs' run.source
        look' c config).result =
      (do let c ← readClassName run.className
          let config ← readConfig fs run.source
          look c config).result := by
  simp only [Traced.result_bind, result_readConfig]
  cases hc : (readClassName run.className).result with
  | error e => rfl
  | ok c =>
    have hconfig := h.config
    -- The settings are refused in both states, or in neither.
    cases hload : Config.load fs run.source <;> cases hload' : Config.load fs' run.source <;>
      rw [hload, hload'] at hconfig
    case error.error e e' =>
      cases hconfig
      rfl
    case ok.ok p p' =>
      exact hlook c p.1 p'.1 (Except.ok.inj hconfig) (h.output c (Except.mapError_eq_ok.mp hc))
        (h.selection p.1 p.2 hload)
    all_goals cases hconfig

/-- **Where two states look the same, a run plans the same.** -/
theorem plan_congr [FileSystem σ] {run : Run σ} {fs fs' : σ} (h : LooksSame run fs fs') :
    run.plan fs' = run.plan fs := by
  cases run with
  | shaders o =>
    have hsurvey : (surveyShaders o fs').result = (surveyShaders o fs).result := by
      refine look_congr h fun c config config' hsame hline hselection => ?_
      have hscan : (Scan.shaders fs' o.source config.plainExtensions).result =
          (Scan.shaders fs o.source config.plainExtensions).result := Scan.shaders_congr hselection
      have hsurvey := fun catalog f => survey_congr (α := Shader) hline catalog f
      simp only [Run.destination] at hsurvey
      simp only [Traced.result_bind, Config.plainExtensions_of_sansTool hsame, hscan, hsurvey]
    rw [Run.plan, Run.plan, planShaders, planShaders, hsurvey]
  | images o env given =>
    have hlook : (lookAtImages o fs').result = (lookAtImages o fs).result := by
      refine look_congr h fun c config config' hsame hline hselection => ?_
      have hscan : (Scan.images fs' o.source config.densityTable).result =
          (Scan.images fs o.source config.densityTable).result :=
        Scan.images_congr hselection config.densityTable
      have hsurvey := fun catalog f => survey_congr (α := Image) hline catalog f
      simp only [Run.destination] at hsurvey
      simp only [surveyImages, Traced.result_bind, Config.densityTable_of_sansTool hsame, hscan,
        hsurvey]
    rw [Run.plan, Run.plan, planImages, planImages, hlook]

/-! ## Where a plan writes -/

theorem Plan.path_of_ofSurvey {found : Survey α} {answer : Except RunError (List Char)}
    {path : Path} {text : List Char} {out : Outcome}
    (h : Plan.ofSurvey found answer = .put path text out) : path = found.path := by
  unfold ofSurvey at h
  split at h
  · cases h
  · split at h
    · cases h
    · cases h
      rfl

theorem path_of_survey [FileSystem σ] {fs : σ} {c : ClassName} {destination : Path}
    {catalog : Catalog α} {f : Fingerprint} {found : Survey α}
    (h : (survey fs c destination catalog f).result = .ok found) :
    found.path = c.sourcePath destination := by
  obtain ⟨current, -, rfl⟩ := survey_eq_ok.mp h
  rfl

theorem path_of_lookAtImages [FileSystem σ] {o : ImageOptions} {found : Survey Image}
    (h : (lookAtImages o s).result = .ok found) :
    ∃ c, ClassName.parse o.className = .ok c ∧ found.path = c.sourcePath o.destination := by
  obtain ⟨c, config, hc, -, hfound⟩ := lookAtImages_eq_ok.mp h
  obtain ⟨catalog, -, hsurvey⟩ := surveyImages_eq_ok.mp hfound
  exact ⟨c, Except.mapError_eq_ok.mp hc, path_of_survey hsurvey⟩

/-- A plan writes nowhere but to the output. -/
theorem path_of_plan [FileSystem σ] {run : Run σ} {path : Path} {text : List Char} {out : Outcome}
    (h : run.plan s = .put path text out) :
    ∃ c, ClassName.parse run.className = .ok c ∧ path = c.sourcePath run.destination := by
  cases run with
  | shaders o =>
    rw [Run.plan, planShaders] at h
    cases hfound : (surveyShaders o s).result with
    | error e =>
      rw [hfound] at h
      cases h
    | ok found =>
      rw [hfound] at h
      obtain ⟨c, config, catalog, hc, -, -, hsurvey⟩ := surveyShaders_eq_ok.mp hfound
      exact ⟨c, Except.mapError_eq_ok.mp hc,
        (Plan.path_of_ofSurvey h).trans (path_of_survey hsurvey)⟩
  | images o env given =>
    rw [Run.plan, planImages] at h
    cases hfound : (lookAtImages o s).result with
    | error e =>
      rw [hfound] at h
      cases h
    | ok found =>
      rw [hfound] at h
      obtain ⟨c, hc, hpath⟩ := path_of_lookAtImages hfound
      exact ⟨c, hc, (Plan.path_of_ofSurvey h).trans hpath⟩

/-- **Where two states look the same and answer alike, a run that does not crunch comes to the
same.** -/
theorem endAlike_of_looksSame [Machine σ] {run : Run σ} (hcrunches : run.crunches = false)
    {t t' : σ} {r r' : Except RunError Outcome} (hlooks : LooksSame run s t)
    (hanswers : ∀ c, ClassName.parse run.className = .ok c → ∀ bytes,
      (FileSystem.write t (c.sourcePath run.destination) bytes).1 =
        (FileSystem.write s (c.sourcePath run.destination) bytes).1)
    (h : run.job.Ends s r s') (h' : run.job.Ends t r' t') : EndAlike s r s' t r' t' := by
  rw [ends_iff_plan hcrunches] at h h'
  rw [plan_congr hlooks] at h'
  refine h.alike h' fun path text out hplan bytes => ?_
  obtain ⟨c, hc, rfl⟩ := path_of_plan hplan
  exact hanswers c hc bytes

end Generate

end AssetPack
