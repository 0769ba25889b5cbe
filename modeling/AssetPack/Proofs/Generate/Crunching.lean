import AssetPack.Host.Machine
import AssetPack.Proofs.Files.Listing
import AssetPack.Proofs.Generate.Plan
import AssetPack.Proofs.Text.Utf8Decode

/-!
# When a run crunches, and what comes of it

A run for images has three things to settle in order: what cruncher there is, whether the class is
current, and what the crunched images are. The cruncher is therefore chosen before anything is known
about the images, and is run only when they have been looked at and the class turns out to be old.

How often it is run is counted by the cruncher itself, in a state that carries a number along. A
bound on what a job adds to that number is a property of the job (`CountsUpTo`) that is added up
along a `bind`, and a run has one step in it that adds anything.

Apart from the count, a cruncher may do whatever it likes with the state. All that is taken for
granted of it is how it ended, and the files it was to make are read for what they are: they may be
others than expected, or missing (`TakesOverCrunched`). Without a scratch directory there is no
cruncher, and the tool is not looked for either (`NeedsNoTool`).
-/

set_option autoImplicit false

namespace AssetPack

open Host (Counted)

namespace Generate

variable {σ α : Type} {s s' t : σ}

/-! ## What comes of the images -/

/-- The second image is what came of the first one: its bytes are those of the file of the same name
in the scratch directory, and it is a nine-patch if its name says so. -/
structure Crunched [FileSystem σ] (fs : σ) (scratch : Path) (i i' : Image) : Prop where
  identifier : i'.identifier = i.identifier
  fileName : i'.fileName = i.fileName
  density : i'.density = i.density
  content : FileSystem.read fs (scratch.push i.fileName) = .ok i'.content
  format : i'.format = .ninePatch ↔ ".9.png".toList <:+ i.fileName.toList

theorem result_crunchedImage [FileSystem σ] (fs : σ) (scratch : Path) (i : Image) :
    (crunchedImage fs scratch i).result =
      ((FileSystem.read fs (scratch.push i.fileName)).mapError .file).map fun content =>
        { i with
          content, format := if Scan.isNinePatchName i.fileName then .ninePatch else .bitmap } := by
  rw [crunchedImage, Traced.result_bind, Scan.ask, Traced.result_ofExcept]
  cases FileSystem.read fs (scratch.push i.fileName) <;> rfl

theorem crunched_of_crunchedImage [FileSystem σ] {fs : σ} {scratch : Path} {i i' : Image}
    (h : (crunchedImage fs scratch i).result = .ok i') : Crunched fs scratch i i' := by
  rw [result_crunchedImage] at h
  cases hread : FileSystem.read fs (scratch.push i.fileName) with
  | error e =>
    rw [hread] at h
    cases h
  | ok content =>
    rw [hread] at h
    cases h
    have hname : Scan.isNinePatchName i.fileName = true ↔ ".9.png".toList <:+ i.fileName.toList :=
      List.isSuffixOf_iff_suffix
    refine ⟨rfl, rfl, rfl, hread, ?_⟩
    rw [← hname]
    cases Scan.isNinePatchName i.fileName <;> simp

/-- Either all images of a catalog are taken over, or one of the files cannot be read. -/
theorem result_mapM_crunchedImage [FileSystem σ] (fs : σ) (scratch : Path) (catalog : Catalog Image) :
    (∃ final : Catalog Image, (catalog.mapM (crunchedImage fs scratch)).result = .ok final ∧
      List.Forall₂ (Crunched fs scratch) catalog.assets final.assets) ∨
    ∃ i ∈ catalog.assets, ∃ cause, FileSystem.read fs (scratch.push i.fileName) = .error cause ∧
      (catalog.mapM (crunchedImage fs scratch)).result = .error (.file cause) := by
  have hassets := Catalog.assets_mapM (fun i => (crunchedImage fs scratch i).result) catalog
  rw [← Catalog.result_mapM] at hassets
  cases hresult : (catalog.mapM (crunchedImage fs scratch)).result with
  | ok final =>
    rw [hresult] at hassets
    refine .inl ⟨final, rfl, ?_⟩
    exact (Except.mapM_eq_ok.mp hassets.symm).imp fun _ _ => crunched_of_crunchedImage
  | error e =>
    rw [hresult] at hassets
    -- Nothing but the reading of a file can stop it.
    obtain ⟨i, hi, he⟩ := Except.exists_of_mapM_eq_error hassets.symm
    rw [result_crunchedImage] at he
    cases hread : FileSystem.read fs (scratch.push i.fileName) with
    | ok content =>
      rw [hread] at he
      cases he
    | error cause =>
      rw [hread] at he
      cases he
      exact .inr ⟨i, hi, cause, hread, rfl⟩

/-! ## Runs that crunch -/

/-- A run that finds its class not current has a cruncher at work before it writes. -/
theorem carryOut_ends_iff [FileSystem σ] {o : ImageOptions} {chosen : Option (Cruncher σ × Path)}
    {found : Survey Image} (hfound : (lookAtImages o s).result = .ok found)
    (hcurrent : found.isCurrent = false) {r : Except RunError Outcome} :
    (carryOut o chosen).Ends s r s' ↔
      (do let catalog ← finalCatalog chosen o.source found.catalog
          writeImages found.className found catalog).Ends s r s' := by
  rw [carryOut, Job.ends_inspect_bind, hfound]
  simp only [hcurrent, Bool.false_eq_true, if_false]

/-- What a cruncher leaves behind when it succeeds decides how the run goes on. -/
theorem carryOut_of_crunched [FileSystem σ] {o : ImageOptions} {cruncher : Cruncher σ}
    {scratch : Path} {found : Survey Image} (hfound : (lookAtImages o s).result = .ok found)
    (hcurrent : found.isCurrent = false) {made : σ}
    (hmade : FileSystem.createDirs s scratch = (.ok (), made))
    (hcrunched : (cruncher o.source scratch).Ends made (.ok ()) t) :
    (∃ catalog : Catalog Image,
      List.Forall₂ (Crunched t scratch) found.catalog.assets catalog.assets ∧
        ∀ r s', (carryOut o (some (cruncher, scratch))).Ends s r s' ↔
          Puts found.path (Emit.images found.className catalog found.fingerprint)
            (found.outcome .written) t r s') ∨
    ∃ i ∈ found.catalog.assets, ∃ cause,
      FileSystem.read t (scratch.push i.fileName) = .error cause ∧
        (carryOut o (some (cruncher, scratch))).Ends s (.error (.file cause)) t := by
  have hfinal : ∀ r, (found.catalog.mapM (crunchedImage t scratch)).result = r →
      (finalCatalog (some (cruncher, scratch)) o.source found.catalog).Ends s r t := by
    intro r hr
    change (crunch cruncher o.source scratch found.catalog).Ends s r t
    rw [crunch, Job.ends_bind_of_ok (Job.ends_createDirs.mpr hmade), Job.ends_bind_of_ok hcrunched]
    exact ⟨hr, rfl⟩
  rcases result_mapM_crunchedImage t scratch found.catalog with
    ⟨final, hresult, hall⟩ | ⟨i, hi, cause, hread, hresult⟩
  · refine .inl ⟨final, hall, fun r s' => ?_⟩
    rw [carryOut_ends_iff hfound hcurrent, Job.ends_bind_of_ok (hfinal _ hresult),
      writeImages_ends_iff]
  · refine .inr ⟨i, hi, cause, hread, ?_⟩
    rw [carryOut_ends_iff hfound hcurrent, Job.ends_bind_of_error (hfinal _ hresult)]
    exact ⟨rfl, rfl⟩

/-! ## Counting -/

/-- Begun in a state with some count, the first job ends as the second one does, and has added at
most so much to the count. -/
def CountsUpTo (bound : Nat) (counting : Job (Counted σ) α) (plain : Job σ α) (s : σ) : Prop :=
  ∀ n r c, counting.Ends ⟨s, n⟩ r c →
    plain.Ends s r c.state ∧ n ≤ c.count ∧ c.count ≤ n + bound

namespace CountsUpTo

variable {β : Type} {a b : Nat}

theorem mono {counting : Job (Counted σ) α} {plain : Job σ α}
    (h : CountsUpTo a counting plain s) (hab : a ≤ b) : CountsUpTo b counting plain s := by
  intro n r c hends
  obtain ⟨hplain, hle, hbound⟩ := h n r c hends
  exact ⟨hplain, hle, by omega⟩

theorem inspect {look : Counted σ → Traced RunError α} {look' : σ → Traced RunError α}
    (h : ∀ n, look ⟨s, n⟩ = look' s) : CountsUpTo 0 (Job.inspect look) (Job.inspect look') s := by
  rintro n r c ⟨hr, rfl⟩
  exact ⟨⟨(congrArg Traced.result (h n)).symm.trans hr, rfl⟩, Nat.le_refl n, Nat.le_refl n⟩

theorem change {ε : Type} {wrap : ε → RunError} {step : Counted σ → Except ε α × Counted σ}
    {step' : σ → Except ε α × σ} (h : ∀ n, step ⟨s, n⟩ = (⟨s, n⟩ : Counted σ).step (step' s)) :
    CountsUpTo 0 (Job.change wrap step) (Job.change wrap step') s := by
  rintro n r c ⟨hr, rfl⟩
  simp only [Job.run, Job.change, h] at hr ⊢
  exact ⟨⟨hr, rfl⟩, Nat.le_refl n, Nat.le_refl n⟩

theorem cruncher (cruncher : Cruncher σ) (source scratch : Path) :
    CountsUpTo 1 (Counted.counting cruncher source scratch) (cruncher source scratch) s := by
  rintro n r c ⟨hr, rfl⟩
  exact ⟨⟨hr, rfl⟩, Nat.le_succ n, Nat.le_refl _⟩

/-- What is added step by step is added up. -/
theorem bind {counting : Job (Counted σ) α} {plain : Job σ α} {f : α → Job (Counted σ) β}
    {f' : α → Job σ β} (h : CountsUpTo a counting plain s)
    (hrest : ∀ x t, plain.Ends s (.ok x) t → CountsUpTo b (f x) (f' x) t) :
    CountsUpTo (a + b) (counting >>= f) (plain >>= f') s := by
  intro n r c hends
  cases r with
  | ok y =>
    obtain ⟨x, d, hfirst, hlast⟩ := Job.ends_bind_ok.mp hends
    obtain ⟨hplain, hle, hbound⟩ := h n _ d hfirst
    obtain ⟨hplain', hle', hbound'⟩ := hrest x d.state hplain d.count _ c hlast
    exact ⟨Job.ends_bind_ok.mpr ⟨x, d.state, hplain, hplain'⟩, by omega, by omega⟩
  | error e =>
    rcases Job.ends_bind_error.mp hends with hfirst | ⟨x, d, hfirst, hlast⟩
    · obtain ⟨hplain, hle, hbound⟩ := h n _ c hfirst
      exact ⟨Job.ends_bind_error.mpr (.inl hplain), hle, by omega⟩
    · obtain ⟨hplain, hle, hbound⟩ := h n _ d hfirst
      obtain ⟨hplain', hle', hbound'⟩ := hrest x d.state hplain d.count _ c hlast
      exact ⟨Job.ends_bind_error.mpr (.inr ⟨x, d.state, hplain, hplain'⟩), by omega, by omega⟩

end CountsUpTo

/-- The output's first line is not the marker of the images as they are. -/
def IsStale [FileSystem σ] (o : ImageOptions) (s : σ) : Prop :=
  ∃ found, (lookAtImages o s).result = .ok found ∧
    FileSystem.firstLine s found.path ≠ .ok (some found.fingerprint.markerLine.toList)

theorem isCurrent_of_lookAtImages [FileSystem σ] {o : ImageOptions} {found : Survey Image}
    (h : (lookAtImages o s).result = .ok found) : found.isCurrent = true ↔
      FileSystem.firstLine s found.path = .ok (some found.fingerprint.markerLine.toList) := by
  obtain ⟨c, config, -, -, hfound⟩ := lookAtImages_eq_ok.mp h
  obtain ⟨-, -, hcurrent, -⟩ := of_surveyImages hfound
  rw [← isCurrent_eq_true, hcurrent, Except.ok.injEq]

/-- The choice with a cruncher that counts. -/
def countingChoice (chosen : Option (Cruncher σ × Path)) : Option (Cruncher (Counted σ) × Path) :=
  chosen.map fun (cruncher, scratch) => (Counted.counting cruncher, scratch)

theorem countsUpTo_finalCatalog [FileSystem σ] (chosen : Option (Cruncher σ × Path)) (source : Path)
    (catalog : Catalog Image) :
    CountsUpTo (if chosen.isSome then 1 else 0)
      (finalCatalog (countingChoice chosen) source catalog) (finalCatalog chosen source catalog)
      s := by
  cases chosen with
  | none => exact .inspect fun _ => rfl
  | some chosen =>
    obtain ⟨cruncher, scratch⟩ := chosen
    refine CountsUpTo.bind (a := 0) (b := 1) (.change fun _ => rfl) fun _ _ _ => ?_
    exact CountsUpTo.bind (b := 0) (.cruncher cruncher source scratch) fun _ _ _ =>
      .inspect fun _ => rfl

/-- A run asks its cruncher only if the class is not current, and then once. -/
theorem countsUpTo_carryOut [FileSystem σ] {o : ImageOptions} {chosen : Option (Cruncher σ × Path)}
    {bound : Nat} (hbound : chosen.isSome = true → IsStale o s → 1 ≤ bound) :
    CountsUpTo bound (carryOut o (countingChoice chosen)) (carryOut o chosen) s := by
  refine (CountsUpTo.bind (a := 0) (b := bound) (.inspect fun _ => rfl)
    fun found t hlook => ?_).mono (by omega)
  obtain ⟨hfound, rfl⟩ := Job.ends_inspect.mp hlook
  cases hcurrent : found.isCurrent with
  | true => exact (CountsUpTo.inspect fun _ => rfl).mono (Nat.zero_le _)
  | false =>
    have hstale : IsStale o s := ⟨found, hfound, fun hline => by
      rw [(isCurrent_of_lookAtImages hfound).mpr hline] at hcurrent
      cases hcurrent⟩
    refine (CountsUpTo.bind (b := 0) (countsUpTo_finalCatalog chosen o.source found.catalog)
      fun catalog t _ => ?_).mono ?_
    · refine CountsUpTo.bind (a := 0) (b := 0) (.inspect fun _ => rfl) fun _ _ _ => ?_
      refine CountsUpTo.bind (a := 0) (b := 0) (.change fun _ => rfl) fun _ _ _ => ?_
      exact CountsUpTo.bind (a := 0) (b := 0) (.inspect fun _ => rfl) fun _ _ _ =>
        .inspect fun _ => rfl
    · split
      · next hsome => exact hbound hsome hstale
      · exact Nat.zero_le _

theorem chooseCruncher_given [Machine σ] (o : ImageOptions) (env : ToolEnv) (cruncher : Cruncher σ)
    (config : Config) (s : σ) : (chooseCruncher o (some cruncher) env config s).result =
      .ok (o.scratch?.map fun scratch => (cruncher, scratch)) := by
  cases hscratch : o.scratch? <;> simp [chooseCruncher, hscratch]

/-- A run with a cruncher that counts is the run, with a count. -/
theorem countsUpTo_images [Machine σ] {o : ImageOptions} (env : ToolEnv) (cruncher : Cruncher σ)
    {bound : Nat} (hbound : o.scratch?.isSome = true → IsStale o s → 1 ≤ bound) :
    CountsUpTo bound (images o env (some (Counted.counting cruncher)))
      (images o env (some cruncher)) s := by
  intro n r c hends
  have hchoice : o.scratch?.map (fun scratch => (Counted.counting cruncher, scratch)) =
      countingChoice (o.scratch?.map fun scratch => (cruncher, scratch)) := by
    cases o.scratch? <;> rfl
  rw [images_ends_iff fun config _ => chooseCruncher_given o env _ config _, hchoice] at hends
  rw [images_ends_iff fun config _ => chooseCruncher_given o env cruncher config s]
  exact countsUpTo_carryOut (by simpa using hbound) n r c hends

theorem status_of_isStale [FileSystem σ] {o : ImageOptions} {chosen : Option (Cruncher σ × Path)}
    (hstale : IsStale o s) {out : Outcome} (h : (carryOut o chosen).Ends s (.ok out) s') :
    out.status = .written := by
  obtain ⟨found, hfound, hline⟩ := hstale
  have hcurrent : found.isCurrent = false :=
    eq_false_of_ne_true fun hcurrent => hline ((isCurrent_of_lookAtImages hfound).mp hcurrent)
  rw [carryOut_ends_iff hfound hcurrent] at h
  obtain ⟨catalog, t, -, h⟩ := Job.ends_bind_ok.mp h
  obtain ⟨rfl, -⟩ := writeImages_ends_ok.mp h
  rfl

/-! ## The tool -/

/-- The tool is looked for before the images are: if it is not there, nothing else is done. -/
theorem images_ends_of_not_located [Machine σ] {o : ImageOptions} {scratch : Path} {env : ToolEnv}
    {c : ClassName} {config : Config} {e : RunError} (hscratch : o.scratch? = some scratch)
    (hc : (readClassName o.className).result = .ok c)
    (hconfig : (readConfig s o.source).result = .ok config)
    (hlocate : (Crunch.locate s config.crunchTool? env).result = .error e) :
    (images o env none).Ends s (.error e) s := by
  have hchosen : (chooseCruncher o none env config s).result = .error e := by
    simp only [chooseCruncher, hscratch, Traced.result_bind, hlocate, Except.error_bind]
  rw [images_eq, Job.ends_lift_bind, hc]
  simp only [Job.ends_inspect_bind, hconfig, hchosen, and_self]

/-- A tool that is there is a cruncher like any other. -/
theorem images_ends_of_located [Machine σ] {o : ImageOptions} {scratch : Path} {env : ToolEnv}
    {config : Config} {program : Path} (hscratch : o.scratch? = some scratch)
    (hconfig : (readConfig s o.source).result = .ok config)
    (hlocate : (Crunch.locate s config.crunchTool? env).result = .ok program)
    {r : Except RunError Outcome} : (images o env none).Ends s r s' ↔
      (images o env (some (.ofProgram program))).Ends s r s' := by
  have hchosen : (chooseCruncher o none env config s).result =
      .ok (o.scratch?.map fun scratch => (.ofProgram program, scratch)) := by
    simp only [chooseCruncher, hscratch, Traced.result_bind, hlocate, Except.ok_bind]
    rfl
  rw [images_ends_iff fun config _ => chooseCruncher_given o env _ config s, images_ends_iff]
  intro config' hconfig'
  obtain rfl : config = config' := Except.ok.inj (hconfig.symm.trans hconfig')
  exact hchosen

/-! ## Without a scratch directory -/

/-- The two states differ, for a run for images, in nothing but the tool that the settings name. -/
structure DifferInTool [FileSystem σ] (o : ImageOptions) (s t : σ) : Prop where
  settings : Config.Retooled o.source s t
  selection : Scan.SameSelection o.source (fun name => (Scan.imageBase? name).isSome) s t
  firstLine : ∀ c, ClassName.parse o.className = .ok c →
    FileSystem.firstLine t (c.sourcePath o.destination) =
      FileSystem.firstLine s (c.sourcePath o.destination)
  answer : ∀ c, ClassName.parse o.className = .ok c → ∀ bytes,
    (FileSystem.write t (c.sourcePath o.destination) bytes).1 =
      (FileSystem.write s (c.sourcePath o.destination) bytes).1

/-- The state with a text for the settings file of a directory. -/
def withSettings (m : Memory) (dir : Path) (text : List Char) : Memory :=
  m.add (dir.push configFileName) (Text.Utf8.encode text)

section Settings

variable {m : Memory} {dir : Path} {text text' : List Char}

theorem readText_withSettings (hfault : m.fault? (dir.push configFileName) = none) :
    FileSystem.readText (withSettings m dir text) (dir.push configFileName) = .ok text := by
  have hread : FileSystem.read (withSettings m dir text) (dir.push configFileName) =
      .ok (Text.Utf8.encode text) := by
    change Memory.guarded _ _ _ = _
    rw [Memory.guarded_eq, withSettings, Memory.find?_add m (Path.same_self _)]
    have hnone : (m.add (dir.push configFileName) (Text.Utf8.encode text)).fault?
        (dir.push configFileName) = none := hfault
    rw [hnone]
  rw [FileSystem.readText, hread, Except.ok_bind, Text.Utf8.decode_eq_ok.mpr rfl]
  rfl

theorem isThere_withSettings :
    FileSystem.isThere (withSettings m dir text) (dir.push configFileName) = true := by
  change (_ || _) = true
  rw [withSettings, Memory.find?_add m (Path.same_self _)]
  rfl

/-- Files of other names do not mind the settings. -/
theorem sameFile_withSettings {p : Path} {name : String} (hname : p.fileName? = some name)
    (hne : name ≠ configFileName) :
    Memory.SameFile p (withSettings m dir text) (withSettings m dir text') := by
  refine Memory.sameFile_add m (eq_false_of_ne_true fun hsame => hne (Option.some.inj ?_)) _ _
  rw [← hname, Path.fileName?_of_same hsame, Path.fileName?_push dir (by decide)]

theorem selection_withSettings {wanted : String → Bool} (hwanted : wanted configFileName = false) :
    Scan.SameSelection dir wanted (withSettings m dir text) (withSettings m dir text') := by
  have hdir : ∀ p, FileSystem.isDir (withSettings m dir text') p =
      FileSystem.isDir (withSettings m dir text) p := Memory.isDir_add m _ _ _
  have hfile : ∀ name, IsPlain name → name ≠ configFileName →
      Memory.SameFile (dir.push name) (withSettings m dir text) (withSettings m dir text') :=
    fun name hplain hne => sameFile_withSettings (Path.fileName?_push dir hplain) hne
  have hignore := hfile ignoreFileName (by decide) (by decide)
  have hthere : FileSystem.isThere (withSettings m dir text') (dir.push ignoreFileName) =
      FileSystem.isThere (withSettings m dir text) (dir.push ignoreFileName) :=
    congrArg₂ (· || ·) (congrArg Option.isSome hignore.find?) (hdir _)
  exact {
    isDir := hdir dir
    rules := by rw [Scan.ignoreRules_congr hthere hignore.read]
    listing := by
      intro rules _
      have hlist : FileSystem.listFiles (withSettings m dir text') dir =
          FileSystem.listFiles (withSettings m dir text) dir := by
        have hisDir : (withSettings m dir text').isDir dir = (withSettings m dir text).isDir dir :=
          hdir dir
        have hnames : (withSettings m dir text').fileNames dir =
            (withSettings m dir text).fileNames dir := Memory.fileNames_add m _ _ _ dir
        simp only [FileSystem.listFiles, hisDir, hnames]
        exact Memory.guarded_congr rfl _ _
      rw [hlist]
    files := by
      intro rules names _ hnames name hname hselected
      have hplain : IsPlain name :=
        Memory.isPlain_of_mem_fileNames (Memory.eq_of_listFiles hnames ▸ hname)
      refine (hfile name hplain ?_).read
      rintro rfl
      rw [Scan.isSelected, hwanted, Bool.and_false] at hselected
      cases hselected }

end Settings

/-- Files in memory that differ in nothing but the tool that the settings file names. -/
theorem differInTool_withSettings {o : ImageOptions} {m : Memory} {text text' : List Char}
    {tool : String} {entries : Toml.Entries}
    (hfault : m.fault? (o.source.push configFileName) = none)
    (hparse : Toml.parse? text = some entries)
    (hparse' : Toml.parse? text' = some (Config.retool tool entries)) :
    DifferInTool o (withSettings m o.source text) (withSettings m o.source text') := by
  have houtput : ∀ c : ClassName, Memory.SameFile (c.sourcePath o.destination)
      (withSettings m o.source text) (withSettings m o.source text') := by
    intro c
    obtain ⟨dir, hpush⟩ := c.sourcePath_eq_push o.destination
    have hname : (c.sourcePath o.destination).fileName? = some c.fileName := by
      rw [hpush, Path.fileName?_push dir c.isPlain_fileName]
    exact sameFile_withSettings hname (ClassName.ne_fileName (by decide) c).symm
  exact {
    settings := ⟨isThere_withSettings, isThere_withSettings, text, text', entries, tool,
      readText_withSettings hfault, readText_withSettings hfault, hparse, hparse'⟩
    selection := selection_withSettings (by decide)
    firstLine := fun c _ => (houtput c).firstLine
    answer := fun c _ => (houtput c).fst_write }

/-- Without a scratch directory no cruncher is chosen, whatever there is to choose from. -/
theorem images_eq_of_none [Machine σ] {o : ImageOptions} (hnone : o.scratch? = none)
    (env env' : ToolEnv) (given given' : Option (Cruncher σ)) :
    images o env given = images o env' given' := by
  have hchoose : ∀ env (given : Option (Cruncher σ)) config,
      chooseCruncher o given env config = fun _ => pure none := by
    intro env given config
    funext fs
    simp only [chooseCruncher, hnone]
  simp only [images, hchoose]

/-! ## The theorem -/

variable (σ) in
/-- A cruncher is run once at most, and only by a run that is to crunch and whose class is not
current; a run that is skipped has not run it. -/
def CrunchesAtMostOnce [Machine σ] (o : ImageOptions) : Prop :=
  ∀ env (cruncher : Cruncher σ) s n r c,
    (images o env (some (Counted.counting cruncher))).Ends ⟨s, n⟩ r c →
      (images o env (some cruncher)).Ends s r c.state ∧
        (c.count = n ∨ c.count = n + 1 ∧ o.scratch? ≠ none ∧ IsStale o s ∧
          ∀ out, r = .ok out → out.status = .written)

variable (σ) in
/-- Where no cruncher is given, the tool is one, if it is there. -/
def CrunchesWithTool [Machine σ] (o : ImageOptions) : Prop :=
  ∀ env (s : σ) c config, o.scratch? ≠ none → ClassName.parse o.className = .ok c →
    (readConfig s o.source).result = .ok config →
      match (Crunch.locate s config.crunchTool? env).result with
      | .ok program => ∀ r s', (images o env none).Ends s r s' ↔
          (images o env (some (.ofProgram program))).Ends s r s'
      | .error e => (images o env none).Ends s (.error e) s

variable (σ) in
/-- When the cruncher has succeeded, the class is that of what it has made of the images; if one of
them cannot be read, the run fails and nothing is done any more. -/
def TakesOverCrunched [Machine σ] (o : ImageOptions) : Prop :=
  ∀ env (cruncher : Cruncher σ) scratch s found made t, o.scratch? = some scratch →
    (lookAtImages o s).result = .ok found → found.isCurrent = false →
    FileSystem.createDirs s scratch = (.ok (), made) →
    (cruncher o.source scratch).Ends made (.ok ()) t →
      (∃ catalog : Catalog Image,
        List.Forall₂ (Crunched t scratch) found.catalog.assets catalog.assets ∧
          ∀ r s', (images o env (some cruncher)).Ends s r s' ↔
            Puts found.path (Emit.images found.className catalog found.fingerprint)
              (found.outcome .written) t r s') ∨
      ∃ i ∈ found.catalog.assets, ∃ cause,
        FileSystem.read t (scratch.push i.fileName) = .error cause ∧
          (images o env (some cruncher)).Ends s (.error (.file cause)) t

variable (σ) in
/-- Without a scratch directory, the class is that of the images as they are, all of them bitmaps. -/
def EmitsSources [Machine σ] (o : ImageOptions) : Prop :=
  ∀ env (given : Option (Cruncher σ)) s found, o.scratch? = none →
    (lookAtImages o s).result = .ok found → found.isCurrent = false →
      (∀ i ∈ found.catalog.assets, i.format = .bitmap ∧
        FileSystem.read s (o.source.push i.fileName) = .ok i.content) ∧
      ∀ r s', (images o env given).Ends s r s' ↔
        Puts found.path (Emit.images found.className found.catalog found.fingerprint)
          (found.outcome .written) s r s'

variable (σ) in
/-- Without a scratch directory, it makes no difference what cruncher is given, what the environment
says, and what tool the settings name. -/
def NeedsNoTool [Machine σ] (o : ImageOptions) : Prop :=
  o.scratch? = none →
    (∀ env env' (given given' : Option (Cruncher σ)), images o env given = images o env' given') ∧
    ∀ env (given : Option (Cruncher σ)) s t r r' s' t', DifferInTool o s t →
      (images o env given).Ends s r s' → (images o env given).Ends t r' t' →
        EndAlike s r s' t r' t'

/-- Writing the class leaves the crunched files in memory as they are. -/
def LeavesCrunched (o : ImageOptions) : Prop :=
  ∀ found (m t m' : Memory) (scratch : Path) text out r, (lookAtImages o m).result = .ok found →
    Puts found.path text out t r m' → ∀ i ∈ found.catalog.assets,
      FileSystem.read m' (scratch.push i.fileName) = FileSystem.read t (scratch.push i.fileName)

theorem crunchesAtMostOnce [Machine σ] (o : ImageOptions) : CrunchesAtMostOnce σ o := by
  intro env cruncher s n r c hends
  obtain ⟨hplain, hle, hbound⟩ := countsUpTo_images env cruncher (fun _ _ => Nat.le_refl 1) n r c
    hends
  refine ⟨hplain, ?_⟩
  -- The run adds one at most; where it has no cruncher or no work for it, the bound is zero.
  by_cases hscratch : o.scratch?.isSome = true ∧ IsStale o s
  · obtain ⟨hsome, hstale⟩ := hscratch
    have hcount : c.count = n ∨ c.count = n + 1 := by omega
    refine hcount.imp_right fun hcount => ⟨hcount, Option.isSome_iff_ne_none.mp hsome, hstale, ?_⟩
    rintro out rfl
    rw [images_ends_iff fun config _ => chooseCruncher_given o env cruncher config s] at hplain
    exact status_of_isStale hstale hplain
  · have hnever : c.count ≤ n + 0 := (countsUpTo_images env cruncher
      (fun hsome hstale => absurd ⟨hsome, hstale⟩ hscratch) n r c hends).2.2
    exact .inl (Nat.le_antisymm hnever hle)

theorem crunchesWithTool [Machine σ] (o : ImageOptions) : CrunchesWithTool σ o := by
  intro env s c config hscratch hc hconfig
  obtain ⟨scratch, hscratch⟩ := Option.ne_none_iff_exists'.mp hscratch
  cases hlocate : (Crunch.locate s config.crunchTool? env).result with
  | ok program => exact fun r s' => images_ends_of_located hscratch hconfig hlocate
  | error e =>
    exact images_ends_of_not_located hscratch (Except.mapError_eq_ok.mpr hc) hconfig hlocate

theorem takesOverCrunched [Machine σ] (o : ImageOptions) : TakesOverCrunched σ o := by
  intro env cruncher scratch s found made t hscratch hfound hcurrent hmade hcrunched
  have hends : ∀ r s', (images o env (some cruncher)).Ends s r s' ↔
      (carryOut o (some (cruncher, scratch))).Ends s r s' := fun r s' =>
    images_ends_iff fun config _ => by
      rw [chooseCruncher_given, hscratch]
      rfl
  simp only [hends]
  exact carryOut_of_crunched hfound hcurrent hmade hcrunched

theorem emitsSources [Machine σ] (o : ImageOptions) : EmitsSources σ o := by
  intro env given s found hnone hfound hcurrent
  constructor
  · intro i hi
    obtain ⟨c, config, -, -, hsurvey⟩ := lookAtImages_eq_ok.mp hfound
    obtain ⟨catalog, hscan, hsurvey⟩ := surveyImages_eq_ok.mp hsurvey
    obtain ⟨current, -, rfl⟩ := survey_eq_ok.mp hsurvey
    obtain ⟨-, -, hread, hformat⟩ := Scan.of_mem_images hscan hi
    exact ⟨hformat, hread⟩
  · intro r s'
    have hends : (images o env given).Ends s r s' ↔ (carryOut o none).Ends s r s' :=
      images_ends_iff fun config _ => by simp [chooseCruncher, hnone]
    rw [hends, carryOut_ends_iff hfound hcurrent]
    exact writeImages_ends_iff

theorem needsNoTool [Machine σ] (o : ImageOptions) : NeedsNoTool σ o := by
  intro hnone
  refine ⟨images_eq_of_none hnone, fun env given s t r r' s' t' hdiffer h h' => ?_⟩
  have hlooks : LooksSame (.images o env given) s t :=
    ⟨hdiffer.settings.load, fun _ _ _ => hdiffer.selection, hdiffer.firstLine⟩
  exact endAlike_of_looksSame (by simp [Run.crunches, hnone]) hlooks hdiffer.answer h h'

theorem leavesCrunched (o : ImageOptions) : LeavesCrunched o := by
  intro found m t m' scratch text out r hfound hputs i hi
  obtain ⟨c, config, -, -, hsurvey⟩ := lookAtImages_eq_ok.mp hfound
  obtain ⟨catalog, hscan, hsurvey⟩ := surveyImages_eq_ok.mp hsurvey
  obtain ⟨current, -, rfl⟩ := survey_eq_ok.mp hsurvey
  obtain ⟨⟨names, hnames, hmem⟩, hbase, -⟩ := Scan.of_mem_images hscan hi
  have hplain : IsPlain i.fileName :=
    Memory.isPlain_of_mem_fileNames (Memory.eq_of_listFiles hnames ▸ hmem)
  obtain ⟨answer, hwrite, -⟩ := hputs
  cases answer with
  | error e => rw [Memory.eq_of_write_error hwrite]
  | ok =>
    refine (Memory.Keeps.write hwrite).read fun p hp => ?_
    -- An image's file has another name than that of a class.
    rw [Bool.not_eq_true']
    refine eq_false_of_ne_true fun hsame => ?_
    obtain ⟨dir, hpush⟩ := c.sourcePath_eq_push o.destination
    have hname : some i.fileName = some c.fileName := by
      rw [← Path.fileName?_push scratch hplain, ← Path.fileName?_of_same hp,
        Path.fileName?_of_same hsame, hpush, Path.fileName?_push dir c.isPlain_fileName]
    rw [Option.some.inj hname, c.imageBase?_fileName] at hbase
    cases hbase

/-- **Crunching is done once, late, and only on demand**, and only with it does it matter what tool
there is. -/
theorem crunch_discipline [Machine σ] (o : ImageOptions) :
    CrunchesAtMostOnce σ o ∧ CrunchesWithTool σ o ∧ TakesOverCrunched σ o ∧ EmitsSources σ o ∧
      NeedsNoTool σ o ∧ LeavesCrunched o :=
  ⟨crunchesAtMostOnce o, crunchesWithTool o, takesOverCrunched o, emitsSources o, needsNoTool o,
    leavesCrunched o⟩

/-! ### Images that are stamped -/

namespace Stamped

/-- A cruncher that puts a stamp in front of each image. -/
def cruncher : Cruncher Memory := Cruncher.stamping addFile [0] []

/-- The options for a run that does not crunch. -/
def plain : ImageOptions := { Copied.options with scratch? := none }

/-- Settings that name a tool. -/
def settings (tool : String) : List Char :=
  "[images]\ncrunch_tool = \"".toList ++ tool.toList ++ "\"\n".toList

/-- The entries of the settings. -/
def entries (tool : String) : Toml.Entries :=
  [("images", .table .header [("crunch_tool", .string tool)])]

/-- The tool in settings that have nothing else. -/
def tool? : Toml.Entries → Option String
  | [("images", .table .header [("crunch_tool", .string tool)])] => some tool
  | _ => none

theorem eq_entries {text : List Char} {tool : String}
    (h : (Toml.parse? text).bind tool? = some tool) : Toml.parse? text = some (entries tool) := by
  obtain ⟨read, hread, htool⟩ := Option.bind_eq_some_iff.mp h
  rw [hread]
  unfold tool? at htool
  split at htool
  · cases htool
    rfl
  · cases htool

/-- The files with settings that name a tool. -/
def start (tool : String) : Memory := withSettings Copied.start ⟨"/img"⟩ (settings tool)

theorem differInTool : DifferInTool plain (start "a") (start "b") := by
  have hparse : Toml.parse? (settings "a") = some (entries "a") := eq_entries (by decide +kernel)
  have hparse' : Toml.parse? (settings "b") = some (Config.retool "b" (entries "a")) :=
    eq_entries (by decide +kernel)
  exact differInTool_withSettings rfl hparse hparse'

end Stamped

open Stamped in
/-- The cruncher is asked once for both images, and both are taken over; where there is no crunching,
one tool is as good as the other. -/
theorem crunch_discipline_stamped :
    (∃ out c, (images Copied.options .empty (some (Counted.counting cruncher))).Ends
        ⟨Copied.start, 0⟩ (.ok out) c ∧ c.count = 1 ∧ ∃ found, ∃ t : Memory,
      ∃ catalog : Catalog Image, (lookAtImages Copied.options Copied.start).result = .ok found ∧
        List.Forall₂ (Crunched t ⟨"/tmp"⟩) found.catalog.assets catalog.assets ∧
        Puts found.path (Emit.images found.className catalog found.fingerprint)
          (found.outcome .written) t (.ok out) c.state) ∧
    ∃ out t t', (images plain .empty none).Ends (start "a") (.ok out) t ∧
      (images plain .empty none).Ends (start "b") (.ok out) t' := by
  obtain ⟨honce, -, htakes, -⟩ := crunch_discipline (σ := Memory) Copied.options
  obtain ⟨-, -, -, -, hneeds, -⟩ := crunch_discipline (σ := Memory) plain
  constructor
  · obtain ⟨out, hout, -⟩ : ∃ out,
        ((images Copied.options .empty (some (Counted.counting cruncher))).run
          ⟨Copied.start, 0⟩).1.result = .ok out ∧ out.assets = 2 :=
      Except.exists_eq_ok_of_toOption (by decide +kernel)
    have hends : (images Copied.options .empty (some (Counted.counting cruncher))).Ends
        ⟨Copied.start, 0⟩ (.ok out) _ := ⟨hout, rfl⟩
    have hplain := (honce .empty cruncher Copied.start 0 _ _ hends).1
    obtain ⟨found, hfound, hcurrent⟩ : ∃ found,
        (lookAtImages Copied.options Copied.start).result = .ok found ∧ found.isCurrent = false :=
      Except.exists_eq_ok_of_toOption (by decide +kernel)
    have hcrunched : (cruncher ⟨"/img"⟩ ⟨"/tmp"⟩).Ends
        (FileSystem.createDirs Copied.start ⟨"/tmp"⟩).2 (.ok ()) _ := ⟨by decide +kernel, rfl⟩
    have hone : ((images Copied.options .empty (some (Counted.counting cruncher))).run
        ⟨Copied.start, 0⟩).2.count = 1 := by decide +kernel
    rcases htakes .empty cruncher ⟨"/tmp"⟩ Copied.start found _ _ rfl hfound hcurrent rfl hcrunched
      with ⟨catalog, hall, hiff⟩ | ⟨i, hi, cause, -, hfailed⟩
    · exact ⟨out, _, hends, hone, found, _, catalog, hfound, hall, (hiff _ _).mp hplain⟩
    · cases hplain.1.symm.trans hfailed.1
  · obtain ⟨out, hout, -⟩ : ∃ out,
        ((images plain .empty none).run (start "a")).1.result = .ok out ∧ out.assets = 2 :=
      Except.exists_eq_ok_of_toOption (by decide +kernel)
    have hends : (images plain .empty none).Ends (start "a") (.ok out) _ := ⟨hout, rfl⟩
    have hends' : (images plain .empty none).Ends (start "b") _ _ := ⟨rfl, rfl⟩
    obtain ⟨hresult, -⟩ := (hneeds rfl).2 .empty none _ _ _ _ _ _ differInTool hends hends'
    exact ⟨out, _, _, hends, hresult ▸ hends'⟩

end Generate

end AssetPack
