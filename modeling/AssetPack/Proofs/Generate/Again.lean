import AssetPack.Host.Machine
import AssetPack.Proofs.Files.Memory
import AssetPack.Proofs.Generate.Run

/-!
# Running again

A run that has written its class finds it current when it is made again, and does nothing
(`ends_again`). What has to be shown is that the second run finds out the same things: the write may
land in the source directory itself, and crunching writes files too.

So the argument is one about the view that a scan has. What the run changes lies outside that view
(`sameView_of_write`): the class's file is no settings or ignore file, and its name is not that of
an asset; and files that a cruncher puts into another directory are not in this one. Only
directories could get in the way, by standing where the settings file is not; that none of them does
is asked for.
-/

set_option autoImplicit false

namespace AssetPack

open Text

/-! ## The name of a class's file -/

namespace ClassName

theorem ne_fileName {name : String} (h : name.toList.getLast? ≠ some 'a') (c : ClassName) :
    name ≠ c.fileName := by
  rintro rfl
  exact h (by simp [fileName])

theorem extension?_fileName (c : ClassName) : Path.extension? c.fileName = some "java" := by
  have hname : c.simpleName.toList ≠ [] := Java.ne_nil_of_isName c.isName_simpleName
  have hup : c.fileName ≠ ".." := (c.isPlain_fileName).ne_up
  have hreverse : c.fileName.toList.reverse = "avaj.".toList ++ c.simpleName.toList.reverse := by
    simp [fileName]
  obtain ⟨last, rest, hlast⟩ := List.exists_cons_of_ne_nil (List.reverse_ne_nil_iff.mpr hname)
  rw [Path.extension?, if_neg hup, hreverse, hlast]
  simp

/-- It is no shader, unless all files with its extension are, -/
theorem not_isShaderName {extensions : List String} (h : "java" ∉ extensions) (c : ClassName) :
    Scan.isShaderName extensions c.fileName = false := by
  simp [Scan.isShaderName, extension?_fileName, h]

/-- and it is no image. -/
theorem imageBase?_fileName (c : ClassName) : Scan.imageBase? c.fileName = none := by
  have hending : ∀ ending : List Char, ending.getLast? = some 'g' →
      ending.isSuffixOf? c.fileName.toList = none := by
    intro ending hlast
    refine Option.eq_none_iff_forall_ne_some.mpr fun rest hrest => ?_
    rw [List.isSuffixOf?_eq_some_iff_append_eq] at hrest
    have hg : c.fileName.toList.getLast? = some 'g' := by
      rw [← hrest, List.getLast?_append, hlast, Option.some_or]
    exact absurd rfl (ne_fileName (by rw [hg]; decide) c)
  simp [Scan.imageBase?, hending Scan.ninePatchEnd rfl, hending Scan.imageEnd rfl]

end ClassName

/-! ## What a run leaves alone -/

namespace Memory

variable {m t m' : Memory} {source output : Path}

/-- Whether a path is right in a directory. -/
def isIn (source path : Path) : Bool := path.parentComponents? = some source.components

/-- Whether a path is right in a directory and not the output. -/
def isBeside (source output path : Path) : Bool := isIn source path && !path.same output

theorem isBeside_of_nameIn? {p : Path} {name : String} (hname : nameIn? source p = some name)
    (hout : isIn source output = true → output.fileName? ≠ some name) :
    isBeside source output p = true := by
  obtain ⟨hparent, hfile⟩ := nameIn?_eq_some.mp hname
  rw [isBeside, Bool.and_eq_true, Bool.not_eq_true']
  refine ⟨decide_eq_true hparent, eq_false_of_ne_true fun hsame => hout (decide_eq_true ?_) ?_⟩
  · rw [← Path.parentComponents?_of_same hsame, hparent]
  · rw [← Path.fileName?_of_same hsame, hfile]

/-- A class's file may be written, after changes elsewhere, without any difference to a scan of a
directory, if its name is not wanted there. -/
theorem sameView_of_write {c : ClassName} {base : Path} {bytes : List UInt8}
    {wanted : String → Bool} (hkeeps : Keeps (isIn source) m t)
    (hwrite : FileSystem.write t (c.sourcePath base) bytes = (.ok (), m'))
    (hdir : m.isDir source = true)
    (hown : ∀ name ∈ [configFileName, ignoreFileName],
      m'.isDir (source.push name) = true → m.isDir (source.push name) = true)
    (hwanted : isIn source (c.sourcePath base) = true → wanted c.fileName = false) :
    Scan.SameView source wanted m m' := by
  have h : Keeps (isBeside source (c.sourcePath base)) m m' :=
    (hkeeps.mono fun p hp => (Bool.and_eq_true _ _ ▸ hp).1).trans
      ((Keeps.write hwrite).mono fun p hp => (Bool.and_eq_true _ _ ▸ hp).2)
  obtain ⟨dir, hpush⟩ := c.sourcePath_eq_push base
  have hfile : (c.sourcePath base).fileName? = some c.fileName := by
    rw [hpush, Path.fileName?_push dir c.isPlain_fileName]
  -- The paths that are looked at are beside the output.
  have hnames : ∀ name ∈ [configFileName, ignoreFileName],
      IsPlain name ∧ name.toList.getLast? ≠ some 'a' := by decide
  have howned : ∀ name ∈ [configFileName, ignoreFileName], ∀ p : Path,
      p.same (source.push name) = true → isBeside source (c.sourcePath base) p = true := by
    intro name hname p hp
    obtain ⟨hplain, hlast⟩ := hnames name hname
    refine isBeside_of_nameIn? (nameIn?_of_same hplain hp) fun _ heq => ?_
    exact ClassName.ne_fileName hlast c (Option.some.inj (heq.symm.trans hfile))
  have hbeside : ∀ p name, nameIn? source p = some name → wanted name = true →
      isBeside source (c.sourcePath base) p = true := by
    intro p name hname hw
    refine isBeside_of_nameIn? hname fun hin heq => ?_
    obtain rfl : c.fileName = name := Option.some.inj (hfile.symm.trans heq)
    rw [hwanted hin] at hw
    cases hw
  exact {
    isDir := (h.isDir hdir).trans hdir.symm
    isThere := by
      intro name hname
      have hfind : m'.find? (source.push name) = m.find? (source.push name) :=
        h.find? (howned name hname)
      have hisDir : m'.isDir (source.push name) = m.isDir (source.push name) :=
        Bool.eq_iff_iff.mpr ⟨hown name hname, h.isDir⟩
      exact congrArg₂ (· || ·) (congrArg Option.isSome hfind) hisDir
    own := fun name hname => h.read (howned name hname)
    listing := h.listFiles hdir hbeside
    files := by
      intro names hnames name hname hw
      have hplain : IsPlain name := isPlain_of_mem_fileNames (eq_of_listFiles hnames ▸ hname)
      exact h.read fun p hp => hbeside p name (nameIn?_of_same hplain hp) hw }

end Memory

/-! ## Runs in memory -/

namespace Generate

open Memory (Keeps ChangesOnlyIn isIn)

variable {m t m' : Memory} {out : Outcome}

/-- What was just written is current. -/
theorem isCurrent_of_write {path : Path} {f : Fingerprint} {rest : List Char}
    (hhex : ∀ c ∈ f.hex.toList, IsPlainByte c)
    (h : FileSystem.write t path (Utf8.encode (f.markerLine.toList ++ '\n' :: rest)) =
      (.ok (), m')) : (isCurrent m' path f).result = .ok true := by
  refine isCurrent_eq_true.mpr ?_
  have hfirst : (m'.find? path).map FileSystem.firstLineOf = some f.markerLine.toList := by
    rw [Memory.find?_write h, Option.map_some, FileSystem.firstLineOf_encode
      (Fingerprint.isPlainByte_of_mem_markerLine hhex)]
  change m'.guarded path (.ok ((m'.find? path).map FileSystem.firstLineOf)) = _
  rw [hfirst, Memory.guarded_of_write h]

theorem shaders_again {o : ShaderOptions} (h : (shaders o).Ends m (.ok out) m')
    (hstatus : out.status = .written)
    (hown : ∀ name ∈ [configFileName, ignoreFileName],
      m'.isDir (o.source.push name) = true → m.isDir (o.source.push name) = true)
    (hout : out.path.parentComponents? ≠ some o.source.components ∨
      ∀ config warnings, Config.load m o.source = .ok (config, warnings) →
        "java" ∉ config.plainExtensions) :
    (shaders o).Ends m' (.ok { out with status := .skipped }) m' := by
  obtain ⟨found, hfound, ⟨-, rfl, -⟩ | ⟨-, rfl, text, htext, hwrite⟩⟩ := shaders_ends_ok.mp h
  · cases hstatus
  obtain ⟨c, config, catalog, hc, hconfig, hscan, hsurvey⟩ := surveyShaders_eq_ok.mp hfound
  obtain ⟨current, -, rfl⟩ := survey_eq_ok.mp hsurvey
  obtain ⟨rest, rfl⟩ := Emit.exists_eq_of_shaders htext
  have hview : Scan.SameView o.source (Scan.isShaderName config.plainExtensions) m m' := by
    refine Memory.sameView_of_write (.refl _ m) hwrite (Scan.isDir_of_shaders hscan) hown ?_
    intro hin
    obtain ⟨warnings, hload⟩ := readConfig_eq_ok.mp hconfig
    have hjava := hout.resolve_left (not_not_intro (of_decide_eq_true hin)) config warnings hload
    exact c.not_isShaderName hjava
  have hcurrent := isCurrent_of_write (fun _ => Fingerprint.isPlainByte_of_mem_hex) hwrite
  refine shaders_ends_ok.mpr ⟨_, surveyShaders_eq_ok.mpr ⟨c, config, catalog, hc, ?_, ?_,
    survey_eq_ok.mpr ⟨true, hcurrent, rfl⟩⟩, .inl ⟨rfl, rfl, rfl⟩⟩
  · rwa [readConfig, hview.config]
  · rw [Scan.shaders_congr hview.selection, hscan]

/-- Crunching into another directory leaves the files of the source directory alone. -/
theorem keeps_finalCatalog {chosen : Option (Cruncher Memory × Path)} {source : Path}
    {catalog final : Catalog Image} (h : (finalCatalog chosen source catalog).Ends m (.ok final) t)
    (hspares : ∀ cruncher scratch, chosen = some (cruncher, scratch) →
      scratch.components ≠ source.components ∧
        (cruncher source scratch).Moves (ChangesOnlyIn scratch)) :
    Keeps (isIn source) m t := by
  cases chosen with
  | none =>
    obtain ⟨-, rfl⟩ := Job.ends_pure.mp h
    exact .refl _ m
  | some chosen =>
    obtain ⟨cruncher, scratch⟩ := chosen
    obtain ⟨hscratch, hchanges⟩ := hspares cruncher scratch rfl
    obtain ⟨t₁, hmade, h⟩ := Job.ends_seq_ok.mp h
    obtain ⟨t₂, hcrunched, h⟩ := Job.ends_seq_ok.mp h
    obtain ⟨-, rfl⟩ := Job.ends_inspect.mp h
    rw [Job.ends_createDirs] at hmade
    have hchange : ChangesOnlyIn scratch t₁ t₂ := hcrunched.2 ▸ hchanges t₁
    refine ((Keeps.createDirs hmade).mono fun _ _ => rfl).trans
      ((hchange.keeps (Memory.mem_dirs_of_createDirs hmade)).mono fun p hp => ?_)
    have hparent : p.parentComponents? = some source.components := of_decide_eq_true hp
    exact decide_eq_true fun heq => hscratch (Option.some.inj (heq.symm.trans hparent))

variable {env : ToolEnv} {given : Option (Cruncher Memory)}

/-- Which cruncher is used does not depend on the files, if it is given. -/
theorem chooseCruncher_eq_ok {o : ImageOptions} (hgiven : o.scratch? ≠ none → given ≠ none)
    {config : Config} {chosen : Option (Cruncher Memory × Path)} :
    (chooseCruncher o given env config m).result = .ok chosen ↔
      chosen = o.scratch?.bind fun scratch => given.map fun cruncher => (cruncher, scratch) := by
  cases hscratch : o.scratch? with
  | none => simp [chooseCruncher, hscratch, eq_comm]
  | some scratch =>
    obtain ⟨cruncher, rfl⟩ := Option.ne_none_iff_exists'.mp (hgiven (by simp [hscratch]))
    simp [chooseCruncher, hscratch, eq_comm]

theorem images_again {o : ImageOptions} (h : (images o env given).Ends m (.ok out) m')
    (hstatus : out.status = .written)
    (hown : ∀ name ∈ [configFileName, ignoreFileName],
      m'.isDir (o.source.push name) = true → m.isDir (o.source.push name) = true)
    (hspares : ∀ scratch, o.scratch? = some scratch → scratch.components ≠ o.source.components ∧
      ∃ cruncher, given = some cruncher ∧
        (cruncher o.source scratch).Moves (ChangesOnlyIn scratch)) :
    (images o env given).Ends m' (.ok { out with status := .skipped }) m' := by
  obtain ⟨c, config, chosen, found, hc, hconfig, hchosen, hfound, hend⟩ := images_ends_ok.mp h
  obtain ⟨-, rfl, -⟩ | ⟨-, final, t, hfinal, rfl, hwrite⟩ := hend
  · cases hstatus
  obtain ⟨catalog, hscan, hsurvey⟩ := surveyImages_eq_ok.mp hfound
  obtain ⟨current, -, rfl⟩ := survey_eq_ok.mp hsurvey
  obtain ⟨rest, hrest⟩ := Emit.exists_eq_of_images c final
    (.ofImages Emit.imageSignature c o.scratch?.isSome catalog)
  have hgiven : o.scratch? ≠ none → given ≠ none := fun hscratch => by
    obtain ⟨scratch, hscratch⟩ := Option.ne_none_iff_exists'.mp hscratch
    obtain ⟨-, cruncher, rfl, -⟩ := hspares scratch hscratch
    exact Option.some_ne_none _
  rw [chooseCruncher_eq_ok hgiven] at hchosen
  have hkeeps : Keeps (isIn o.source) m t := by
    refine keeps_finalCatalog hfinal fun cruncher scratch hsome => ?_
    rw [hchosen, Option.bind_eq_some_iff] at hsome
    obtain ⟨_, hscratch, hmap⟩ := hsome
    obtain ⟨_, rfl, hpair⟩ := Option.map_eq_some_iff.mp hmap
    cases hpair
    obtain ⟨hne, _, hsame, hchanges⟩ := hspares scratch hscratch
    cases hsame
    exact ⟨hne, hchanges⟩
  have hview : Scan.SameView o.source (fun name => (Scan.imageBase? name).isSome) m m' :=
    Memory.sameView_of_write hkeeps hwrite (Scan.isDir_of_images hscan) hown fun _ => by
      rw [c.imageBase?_fileName]
      rfl
  have hcurrent := isCurrent_of_write (fun _ => Fingerprint.isPlainByte_of_mem_hex)
    (hrest ▸ hwrite)
  refine images_ends_ok.mpr ⟨c, config, chosen, _, hc, ?_,
    (chooseCruncher_eq_ok hgiven).mpr hchosen,
    surveyImages_eq_ok.mpr ⟨catalog, ?_, survey_eq_ok.mpr ⟨true, hcurrent, rfl⟩⟩,
    .inl ⟨rfl, rfl, rfl⟩⟩
  · rwa [readConfig, hview.config]
  · rw [Scan.images_congr hview.selection, hscan]

namespace Run

/-- What a run writes on the way is nothing that it looks for itself: the class's file is not right
in the source directory, or is no shader there; and images are crunched, if at all, by a given
cruncher that changes only files right in a directory other than that of the images. -/
def SparesSource (m : Memory) (output : Path) : Run Memory → Prop
  | .shaders o =>
    output.parentComponents? ≠ some o.source.components ∨
      ∀ config warnings, Config.load m o.source = .ok (config, warnings) →
        "java" ∉ config.plainExtensions
  | .images o _ given =>
    ∀ scratch, o.scratch? = some scratch → scratch.components ≠ o.source.components ∧
      ∃ cruncher, given = some cruncher ∧
        (cruncher o.source scratch).Moves (ChangesOnlyIn scratch)

end Run

/-- **A run that is made again does nothing.** After a run that has written its class, the same run
is skipped, with the same report but for that, and leaves everything as it is; unless what it has
written is something that it looks for, or a directory that it has made stands where the settings
file or the ignore file would. -/
theorem ends_again {run : Run Memory} {written : Outcome}
    (h : run.job.Ends m (.ok written) m') (hstatus : written.status = .written)
    (hdirs : ∀ p : Path, m'.isDir p = true → m.isDir p = false →
      ∀ name ∈ [configFileName, ignoreFileName],
        ¬ (run.source.push name).components <+: p.components)
    (hspares : run.SparesSource m written.path) :
    run.job.Ends m' (.ok { written with status := .skipped }) m' := by
  have hown : ∀ name ∈ [configFileName, ignoreFileName],
      m'.isDir (run.source.push name) = true → m.isDir (run.source.push name) = true := by
    intro name hname hisDir
    by_contra hnot
    exact hdirs _ hisDir (eq_false_of_ne_true hnot) name hname List.prefix_rfl
  cases run with
  | shaders o => exact shaders_again h hstatus hown hspares
  | images o env given => exact images_again h hstatus hown hspares

/-! ### Copying as a cruncher -/

/-- Puts a file into place, whatever failures there are. -/
def addFile (s : Memory) (path : Path) (bytes : List UInt8) : Except SystemError Unit × Memory :=
  (.ok (), s.add path bytes)

theorem moves_copyFiles (stamp : List UInt8) (source scratch : Path) {names : List String}
    (hplain : ∀ name ∈ names, IsPlain name) :
    (Cruncher.copyFiles addFile stamp source scratch names).Moves (ChangesOnlyIn scratch) := by
  induction names with
  | nil => exact Job.moves_inspect (ChangesOnlyIn.refl scratch) _
  | cons name rest ih =>
    refine Job.Moves.bind ChangesOnlyIn.trans ?_ fun _ _ _ =>
      ih fun name hname => hplain name (List.mem_cons_of_mem _ hname)
    refine Job.Moves.bind ChangesOnlyIn.trans (Job.moves_inspect (ChangesOnlyIn.refl scratch) _)
      fun _ bytes _ => Job.moves_change fun s => ?_
    exact ChangesOnlyIn.add scratch (hplain name List.mem_cons_self) s _

/-- A cruncher that stamps copies changes only the directory that it puts them into. -/
theorem changesOnlyIn_stamping (stamp : List UInt8) (skip : List String) (source scratch : Path) :
    (Cruncher.stamping addFile stamp skip source scratch).Moves (ChangesOnlyIn scratch) := by
  refine Job.Moves.bind ChangesOnlyIn.trans (Job.moves_inspect (ChangesOnlyIn.refl scratch) _)
    fun s names hnames => moves_copyFiles stamp source scratch fun name hname => ?_
  have hlisted : FileSystem.listFiles s source = .ok names := Except.mapError_eq_ok.mp hnames
  rw [Memory.eq_of_listFiles hlisted] at hname
  exact Memory.isPlain_of_mem_fileNames (List.mem_filter.mp hname).1

namespace Copied

/-- Images to be crunched. -/
def options : ImageOptions := ⟨⟨"/img"⟩, ⟨"/gen"⟩, "p.Images", some ⟨"/tmp"⟩⟩

/-- A run that stamps them. -/
def run : Run Memory :=
  .images options .empty (some (Cruncher.stamping addFile [0] []))

/-- Two image files. -/
def start : Memory :=
  { Memory.empty with
    files := [(⟨"/img/a.9.png"⟩, [1, 2]), (⟨"/img/b-hdpi.png"⟩, [3])]
    ordered := by decide +kernel }

end Copied

/-- Images that were crunched once are not crunched again. -/
theorem ends_again_copied : ∃ written m', written.status = .written ∧
    Copied.run.job.Ends Copied.start (.ok written) m' ∧
    Copied.run.job.Ends m' (.ok { written with status := .skipped }) m' := by
  obtain ⟨written, hresult, hstatus⟩ : ∃ written,
      (Copied.run.job.run Copied.start).1.result = .ok written ∧ written.status = .written :=
    Except.exists_eq_ok_of_toOption (by decide +kernel)
  have hends : Copied.run.job.Ends Copied.start (.ok written) _ := ⟨hresult, rfl⟩
  have hclear : ∀ d ∈ (Copied.run.job.run Copied.start).2.dirComponents,
      ∀ name ∈ [configFileName, ignoreFileName],
        ¬ (Copied.run.source.push name).components <+: d := by
    decide +kernel
  refine ⟨written, _, hstatus, hends, ends_again hends hstatus ?_ ?_⟩
  · intro p hp _ name hname hbelow
    obtain ⟨d, hd, hpd⟩ := Memory.isDir_iff.mp hp
    exact hclear d hd name hname (hbelow.trans hpd)
  · intro scratch hscratch
    cases hscratch
    exact ⟨by decide, _, rfl, changesOnlyIn_stamping [0] [] _ _⟩

end Generate

end AssetPack
