import AssetPack.Proofs.Files.Listing
import AssetPack.Proofs.Generate.Plan
import AssetPack.Proofs.Host.Disk

/-!
# Files that are not selected do not matter

A run takes notice of a file in its source directory only if it may be an asset: one that is not
hidden, not ignored, and named like an asset (`Run.Selects`). Two states that have the same such
files are the same to it, whatever else they hold (`selection_suffices`): other files may be hidden,
ignored, in directories of their own, named otherwise, or be no text at all.

Both states have the class's file in common too, and nothing else: a write in memory asks for no
directories. What a disk adds is that the names of a directory come in any order.
-/

set_option autoImplicit false

namespace AssetPack

namespace Generate

variable {σ : Type}

namespace Run

/-- Whether a name is that of an asset of the run: for a shader, by its extension; for an image, by
its end. -/
def NamesAsset (config : Config) (name : String) : Run σ → Prop
  | .shaders _ =>
    ∃ extension ∈ config.plainExtensions, Path.extension? name = some extension
  | .images _ _ _ => ".png".toList <:+ name.toList

theorem wanted_iff {run : Run σ} {config : Config} {name : String} :
    run.wanted config name = true ↔ run.NamesAsset config name := by
  cases run with
  | shaders o => exact Scan.isShaderName_iff
  | images o env given => exact Scan.isSome_imageBase?

/-- The run selects the file of this name: one right in the source directory that is not hidden and
not ignored, and named like an asset. -/
structure Selects (run : Run Memory) (m : Memory) (name : String) : Prop where
  listed : name ∈ m.fileNames run.source
  visible : name.toList.head? ≠ some '.'
  unignored : ∃ rules, (Scan.ignoreRules m run.source).result = .ok rules ∧
    rules.isIgnored name = false
  asset : ∃ config warnings, Config.load m run.source = .ok (config, warnings) ∧
    run.NamesAsset config name

theorem selects_iff {run : Run Memory} {m : Memory} {name : String} {rules : IgnoreRules}
    {config : Config} {warnings : List ConfigWarning}
    (hrules : (Scan.ignoreRules m run.source).result = .ok rules)
    (hconfig : Config.load m run.source = .ok (config, warnings)) :
    run.Selects m name ↔ name ∈ m.fileNames run.source ∧
      Scan.isSelected rules (run.wanted config) name = true := by
  have hvisible : Scan.isHidden name = false ↔ name.toList.head? ≠ some '.' := by
    simp [Scan.isHidden]
  simp only [Scan.isSelected, Scan.isCandidate, Bool.and_eq_true, Bool.not_eq_true', wanted_iff,
    hvisible]
  constructor
  · rintro ⟨hlisted, hname, ⟨rules', hrules', hunignored⟩, config', warnings', hconfig', hasset⟩
    obtain rfl : rules' = rules := Except.ok.inj (hrules'.symm.trans hrules)
    obtain ⟨rfl, -⟩ : config' = config ∧ _ :=
      Prod.mk.inj (Except.ok.inj (hconfig'.symm.trans hconfig))
    exact ⟨hlisted, ⟨hunignored, hname⟩, hasset⟩
  · rintro ⟨hlisted, ⟨hunignored, hname⟩, hasset⟩
    exact ⟨hlisted, hname, ⟨rules, hrules, hunignored⟩, config, warnings, hconfig, hasset⟩

end Run

/-! ## Files in memory -/

/-- The two states agree on what a run takes notice of: the source directory is there, its own two
files are the same, it has the same selected files, and the class's file is the same. -/
structure AgreeOnSelected (run : Run Memory) (m m' : Memory) : Prop where
  isDir : m.isDir run.source = true
  isDir' : m'.isDir run.source = true
  fault? : m'.fault? run.source = m.fault? run.source
  own : ∀ name ∈ [configFileName, ignoreFileName],
    Memory.SameFile (run.source.push name) m m' ∧
      m'.isDir (run.source.push name) = m.isDir (run.source.push name)
  names : ∀ name, run.Selects m' name ↔ run.Selects m name
  files : ∀ name, run.Selects m name → Memory.SameFile (run.source.push name) m m'
  output : ∀ c, ClassName.parse run.className = .ok c →
    Memory.SameFile (c.sourcePath run.destination) m m'

namespace AgreeOnSelected

variable {run : Run Memory} {m m' : Memory}

theorem isThere (h : AgreeOnSelected run m m') {name : String}
    (hname : name ∈ [configFileName, ignoreFileName]) :
    FileSystem.isThere m' (run.source.push name) = FileSystem.isThere m (run.source.push name) := by
  obtain ⟨hfile, hdir⟩ := h.own name hname
  exact congrArg₂ (· || ·) (congrArg Option.isSome hfile.find?) hdir

theorem load (h : AgreeOnSelected run m m') : Config.load m' run.source = Config.load m run.source :=
  Scan.load_congr (h.isThere List.mem_cons_self) (h.own _ List.mem_cons_self).1.read

theorem ignoreRules (h : AgreeOnSelected run m m') :
    Scan.ignoreRules m' run.source = Scan.ignoreRules m run.source :=
  Scan.ignoreRules_congr (h.isThere (by simp)) (h.own _ (by simp)).1.read

theorem looksSame (h : AgreeOnSelected run m m') : LooksSame run m m' where
  config := by rw [h.load]
  selection := by
    intro config warnings hconfig
    -- Both states have these settings and these rules, so both select by the same test of a name.
    have hselects : ∀ rules name, (Scan.ignoreRules m run.source).result = .ok rules →
        (run.Selects m name ↔ name ∈ m.fileNames run.source ∧
          Scan.isSelected rules (run.wanted config) name = true) :=
      fun rules name hrules => Run.selects_iff hrules hconfig
    have hselects' : ∀ rules name, (Scan.ignoreRules m run.source).result = .ok rules →
        (run.Selects m' name ↔ name ∈ m'.fileNames run.source ∧
          Scan.isSelected rules (run.wanted config) name = true) :=
      fun rules name hrules => Run.selects_iff (h.ignoreRules ▸ hrules) (h.load ▸ hconfig)
    exact {
      isDir := h.isDir'.trans h.isDir.symm
      rules := by rw [h.ignoreRules]
      listing := by
        intro rules hrules
        change (m'.guarded run.source _).map _ = (m.guarded run.source _).map _
        rw [Memory.guarded_of_fault? h.fault?, if_pos h.isDir, if_pos h.isDir', Memory.guarded_eq,
          Memory.guarded_eq]
        cases m.fault? run.source with
        | some fault => rfl
        | none =>
          refine congrArg Except.ok (Memory.filter_fileNames_congr fun name hname => ?_)
          have hboth := h.names name
          rw [hselects rules name hrules, hselects' rules name hrules] at hboth
          simpa [hname] using hboth
      files := by
        intro rules names hrules hnames name hname hselected
        rw [Memory.eq_of_listFiles hnames] at hname
        exact (h.files name ((hselects rules name hrules).mpr ⟨hname, hselected⟩)).read }
  output := fun c hc => (h.output c hc).firstLine

end AgreeOnSelected

/-! ## Disks -/

open Host (Disk)

/-- On disks that differ in the order of their entries only, everything looks the same. -/
theorem looksSame_of_shuffled {run : Run Disk} {d d' : Disk} (h : d.Shuffled d') :
    LooksSame run d d' := by
  have hread : ∀ p, FileSystem.read d' p = FileSystem.read d p := fun p =>
    congrArg (Except.mapError (FileError.ofSystem p)) (h.read p)
  have hthere : ∀ p, FileSystem.isThere d' p = FileSystem.isThere d p := fun p =>
    congrArg Option.isSome (h.find? p)
  have hlist : FileSystem.listFiles d' run.source = FileSystem.listFiles d run.source :=
    congrArg (Except.mapError (FileError.ofSystem run.source)) (h.list _ run.source)
  have hview : ∀ wanted, Scan.SameView run.source wanted d d' := fun wanted =>
    { isDir := h.isDir run.source
      isThere := fun name _ => hthere (run.source.push name)
      own := fun name _ => hread (run.source.push name)
      listing := by rw [hlist]
      files := fun _ _ name _ _ => hread (run.source.push name) }
  have hline : ∀ p, FileSystem.firstLine d' p = FileSystem.firstLine d p := fun p => by
    change d'.firstLine p = d.firstLine p
    rw [Disk.firstLine, Disk.firstLine, h.read]
  exact ⟨by rw [(hview fun _ => true).config], fun _ _ _ => (hview _).selection,
    fun c _ => hline (c.sourcePath run.destination)⟩

/-! ## The theorem -/

/-- **Files that are not selected do not matter, nor does the order in which files are found.** A run
that does not crunch comes to the same in two states in memory that agree on the selected files; and
so it does on two disks that differ only in the order of their entries, and leaves them so. -/
theorem selection_suffices :
    (∀ (run : Run Memory) m m', run.crunches = false → AgreeOnSelected run m m' →
      ∀ r t r' t', run.job.Ends m r t → run.job.Ends m' r' t' → EndAlike m r t m' r' t') ∧
    ∀ (run : Run Disk) d d', run.crunches = false → d.Shuffled d' →
      ∀ r t r' t', run.job.Ends d r t → run.job.Ends d' r' t' →
        EndAlike d r t d' r' t' ∧ t.Shuffled t' := by
  constructor
  · intro run m m' hcrunches hagree r t r' t' h h'
    exact endAlike_of_looksSame hcrunches hagree.looksSame
      (fun c hc bytes => (hagree.output c hc).fst_write bytes) h h'
  · intro run d d' hcrunches hshuffled r t r' t' h h'
    have halike := endAlike_of_looksSame hcrunches (looksSame_of_shuffled hshuffled)
      (fun c _ bytes => (hshuffled.write (c.sourcePath run.destination) bytes).1) h h'
    refine ⟨halike, ?_⟩
    obtain ⟨-, ⟨rfl, rfl⟩ | ⟨path, bytes, answer, hwrite, hwrite'⟩⟩ := halike
    · exact hshuffled
    · have hleft := (hshuffled.write path bytes).2
      have ht : d.write path bytes = (answer, t) := hwrite
      have ht' : d'.write path bytes = (answer, t') := hwrite'
      rwa [ht, ht'] at hleft

/-! ### A directory with other files in it -/

namespace Cluttered

/-- The options for a directory with a shader in it. -/
def options : ShaderOptions := ⟨⟨"/src"⟩, ⟨"/gen"⟩, "p.S", .release⟩

/-- The run in memory. -/
def run : Run Memory := .shaders options

/-- A shader, and an ignore file. -/
def start : Memory :=
  (Memory.empty.add ⟨"/src/tap.fsh"⟩ (Text.Utf8.encode "void main(){}".toList)).add
    ⟨"/src/.assetignore"⟩ (Text.Utf8.encode "wip*\n".toList)

/-- With files that are hidden, ignored, in a directory of their own, or of another kind; no text in
any of them. -/
def cluttered : Memory :=
  (((start.add ⟨"/src/.tap.fsh"⟩ [0xFF]).add ⟨"/src/wip-tap.fsh"⟩ [0xFF]).add
    ⟨"/src/sub.fsh/tap.fsh"⟩ [0xFF]).add ⟨"/src/notes.txt"⟩ [0xFF]

/-- The rules of the ignore file leave the shader, and take the one that is only begun. -/
theorem exists_rules {m : Memory} (hm : m = start ∨ m = cluttered) :
    ∃ rules, (Scan.ignoreRules m run.source).result = .ok rules ∧
      (rules.isIgnored "tap.fsh", rules.isIgnored "wip-tap.fsh") = (false, true) := by
  rcases hm with rfl | rfl <;>
    exact Except.exists_eq_ok_of_toOption (by decide +kernel)

theorem selects_iff {m : Memory} (hm : m = start ∨ m = cluttered) {name : String} :
    run.Selects m name ↔ name = "tap.fsh" := by
  obtain ⟨rules, hrules, hignored⟩ := exists_rules hm
  obtain ⟨htap, hwip⟩ := Prod.mk.inj hignored
  have hconfig : Config.load m run.source = .ok (Config.default, []) := by
    rcases hm with rfl | rfl <;> decide +kernel
  have hnames : "tap.fsh" ∈ m.fileNames run.source ∧ m.fileNames run.source ⊆
      [".assetignore", ".tap.fsh", "notes.txt", "tap.fsh", "wip-tap.fsh"] := by
    rcases hm with rfl | rfl <;> decide +kernel
  rw [Run.selects_iff hrules hconfig]
  simp only [Scan.isSelected, Scan.isCandidate, Bool.and_eq_true, Bool.not_eq_true']
  constructor
  · rintro ⟨hlisted, ⟨hunignored, hvisible⟩, hwanted⟩
    have hname := hnames.2 hlisted
    simp only [List.mem_cons, List.not_mem_nil, or_false] at hname
    rcases hname with rfl | rfl | rfl | rfl | rfl
    · exact absurd hvisible (by decide)
    · exact absurd hvisible (by decide)
    · exact absurd hwanted (by decide +kernel)
    · rfl
    · rw [hwip] at hunignored
      cases hunignored
  · rintro rfl
    exact ⟨hnames.1, ⟨htap, by decide⟩, by decide +kernel⟩

theorem agreeOnSelected : AgreeOnSelected run start cluttered where
  isDir := by decide +kernel
  isDir' := by decide +kernel
  fault? := by decide +kernel
  own := by
    intro name hname
    rcases List.mem_pair.mp hname with rfl | rfl <;>
      exact ⟨⟨by decide +kernel, by decide +kernel⟩, by decide +kernel⟩
  names := fun name => (selects_iff (.inr rfl)).trans (selects_iff (.inl rfl)).symm
  files := by
    intro name hname
    obtain rfl := (selects_iff (.inl rfl)).mp hname
    exact ⟨by decide +kernel, by decide +kernel⟩
  output := by
    intro c hc
    have hparse : ClassName.parse "p.S" = .ok ⟨["p", "S"], by decide, by decide⟩ := by
      decide +kernel
    obtain rfl := Except.ok.inj (hparse.symm.trans hc)
    exact ⟨by decide +kernel, by decide +kernel⟩

/-- The run on a disk. -/
def diskRun : Run Host.Disk := .shaders options

/-- Two shaders on a disk. -/
def disk : Host.Disk where
  entries := [(["tap.fsh", "src"], .file [] false), (["src"], .directory),
    (["end.vsh", "src"], .file [] false)]
  here := []

/-- The disk, with its entries the other way round. -/
def reversed : Host.Disk := { disk with entries := disk.entries.reverse }

theorem shuffled_reversed : disk.Shuffled reversed :=
  ⟨rfl, disk.entries.reverse_perm, by decide⟩

end Cluttered

open Cluttered in
/-- The files that are not selected are not noticed, and neither is the order of those on disk. -/
theorem selection_suffices_cluttered :
    (∃ out t t', run.job.Ends start (.ok out) t ∧ run.job.Ends cluttered (.ok out) t' ∧
      EndAlike start (.ok out) t cluttered (.ok out) t') ∧
    ∃ r t t', diskRun.job.Ends disk r t ∧ diskRun.job.Ends reversed r t' ∧ t.Shuffled t' := by
  constructor
  · obtain ⟨out, hout, -⟩ : ∃ out, (run.job.run start).1.result = .ok out ∧ out.assets = 1 :=
      Except.exists_eq_ok_of_toOption (by decide +kernel)
    have halike := selection_suffices.1 run start cluttered rfl agreeOnSelected (.ok out) _ _ _
      ⟨hout, rfl⟩ ⟨rfl, rfl⟩
    have hsame : (run.job.run cluttered).1.result = .ok out := halike.1
    rw [hsame] at halike
    exact ⟨out, _, _, ⟨hout, rfl⟩, ⟨hsame, rfl⟩, halike⟩
  · have hboth := selection_suffices.2 diskRun disk reversed rfl shuffled_reversed _ _ _ _
      ⟨rfl, rfl⟩ ⟨rfl, rfl⟩
    exact ⟨_, _, _, ⟨rfl, rfl⟩, ⟨hboth.1.1, rfl⟩, hboth.2⟩

end Generate

end AssetPack
