import AssetPack.Config.Load
import AssetPack.Proofs.Asset.Catalog
import AssetPack.Scan
import Mathlib.Data.List.Basic

/-!
# What a scan depends on

A scan of a directory looks at the directory's two own files, at its listing, and at the files whose
names can be those of assets. Two states that agree on these (`SameView`) give the same settings and
the same assets, whatever else is in them; a listing may even differ in names that are not wanted.

For the assets alone less is needed: the settings may differ, and names that are hidden or ignored
are not wanted either (`SameSelection`).
-/

set_option autoImplicit false

namespace AssetPack

namespace Scan

variable {σ α β : Type} [FileSystem σ] [Asset α] {fs fs' : σ} {dir : Path}

/-! ## Candidates -/

/-- Whether a file of this name may be an asset. -/
def isCandidate (rules : IgnoreRules) (name : String) : Bool :=
  !rules.isIgnored name && !isHidden name

theorem result_candidates (fs : σ) (dir : Path) :
    (candidates fs dir).result =
      if FileSystem.isDir fs dir then do
        let rules ← (ignoreRules fs dir).result
        let listed ← (FileSystem.listFiles fs dir).mapError .file
        .ok (listed.filter (isCandidate rules))
      else .error (.directoryNotFound dir) := by
  cases hdir : FileSystem.isDir fs dir with
  | false => simp [candidates, hdir]
  | true =>
    simp only [candidates, hdir, Bool.not_true, Bool.false_eq_true, if_false, if_true,
      Traced.result_bind, ask, unignored, Traced.result_ofExcept, List.filter_filter]
    rfl

theorem listed_of_mem_candidates {names : List String}
    (h : (candidates fs dir).result = .ok names) {name : String} (hname : name ∈ names) :
    ∃ listed, FileSystem.listFiles fs dir = .ok listed ∧ name ∈ listed := by
  rw [result_candidates] at h
  split at h
  · obtain ⟨rules, -, h⟩ := Except.bind_eq_ok.mp h
    obtain ⟨listed, hlisted, h⟩ := Except.bind_eq_ok.mp h
    cases h
    exact ⟨listed, Except.mapError_eq_ok.mp hlisted, (List.mem_filter.mp hname).1⟩
  · cases h

/-! ## Names of assets -/

theorem isShaderName_iff {extensions : List String} {name : String} :
    isShaderName extensions name = true ↔
      ∃ extension ∈ extensions, Path.extension? name = some extension := by
  unfold isShaderName
  cases Path.extension? name <;> simp

theorem isSome_imageBase? {name : String} :
    (imageBase? name).isSome = true ↔ ".png".toList <:+ name.toList := by
  have hends : ∀ ending : List Char, (ending.isSuffixOf? name.toList).isSome = true ↔
      ending <:+ name.toList := by
    intro ending
    rw [Option.isSome_iff_exists]
    simp only [List.isSuffixOf?_eq_some_iff_append_eq]
    rfl
  have hpatch : ninePatchEnd <:+ name.toList → imageEnd <:+ name.toList :=
    fun h => List.IsSuffix.trans (by decide) h
  simp only [imageBase?, Option.isSome_or, Option.isSome_map, Bool.or_eq_true, hends]
  exact ⟨fun h => h.elim hpatch id, .inr⟩

/-! ## What is collected -/

/-- Whatever is in a catalog in the end was loaded, or was there before. -/
theorem mem_collect {load : β → Traced RunError α} {c c' : Catalog α} {bs : List β}
    (h : (collect load c bs).result = .ok c') {a : α} (ha : a ∈ c'.assets) :
    a ∈ c.assets ∨ ∃ b ∈ bs, (load b).result = .ok a := by
  induction bs generalizing c with
  | nil =>
    cases h
    exact .inl ha
  | cons b bs ih =>
    rw [collect, Traced.result_bind, Except.bind_eq_ok] at h
    obtain ⟨d, hload, h⟩ := h
    rw [Traced.result_bind, Except.bind_eq_ok] at h
    obtain ⟨c₁, hinsert, h⟩ := h
    rw [Traced.result_ofExcept, Except.mapError_eq_ok] at hinsert
    rcases ih h with hmem | ⟨b', hb', hload'⟩
    · rcases (Catalog.mem_assets_of_insert hinsert).mp hmem with rfl | hmem
      · exact .inr ⟨b, List.mem_cons_self, hload⟩
      · exact .inl hmem
    · exact .inr ⟨b', List.mem_cons_of_mem _ hb', hload'⟩

/-- An image that is found was loaded from a candidate with the name of an image. -/
theorem exists_loadImage_of_mem {table : DensityTable} {c : Catalog Image}
    (h : (images fs dir table).result = .ok c) {i : Image} (hi : i ∈ c.assets) :
    ∃ names name base, (candidates fs dir).result = .ok names ∧ name ∈ names ∧
      imageBase? name = some base ∧ (loadImage fs dir table (name, base)).result = .ok i := by
  rw [images, Traced.result_bind, Except.bind_eq_ok] at h
  obtain ⟨names, hnames, hcollect⟩ := h
  rcases mem_collect hcollect hi with hnone | ⟨⟨name, base⟩, hpair, hload⟩
  · cases hnone
  · obtain ⟨_, hmem, hbase⟩ := List.mem_filterMap.mp hpair
    obtain ⟨_, hbase, hpair⟩ := Option.map_eq_some_iff.mp hbase
    cases hpair
    exact ⟨names, name, base, hnames, hmem, hbase, hload⟩

theorem loadImage_eq_ok {table : DensityTable} {name base : String} {i : Image} :
    (loadImage fs dir table (name, base)).result = .ok i ↔
      ∃ content, FileSystem.read fs (dir.push name) = .ok content ∧
        i = ⟨.sanitize (table.split base).1, name, content, (table.split base).2, .bitmap⟩ := by
  simp only [loadImage, ask, Traced.result_bind, Traced.result_ofExcept, Traced.result_note,
    Traced.result_pure, Except.ok_bind, Except.bind_eq_ok, Except.mapError_eq_ok, Except.ok.injEq]
  exact exists_congr fun content => and_congr_right fun _ => eq_comm

/-- An image that is found is a listed file with the name of an image, a plain bitmap, and has the
file's bytes. -/
theorem of_mem_images {table : DensityTable} {c : Catalog Image}
    (h : (images fs dir table).result = .ok c) {i : Image} (hi : i ∈ c.assets) :
    (∃ names, FileSystem.listFiles fs dir = .ok names ∧ i.fileName ∈ names) ∧
      (imageBase? i.fileName).isSome = true ∧
      FileSystem.read fs (dir.push i.fileName) = .ok i.content ∧ i.format = .bitmap := by
  obtain ⟨names, name, base, hnames, hmem, hbase, hload⟩ := exists_loadImage_of_mem h hi
  obtain ⟨content, hread, rfl⟩ := loadImage_eq_ok.mp hload
  exact ⟨listed_of_mem_candidates hnames hmem, Option.isSome_iff_exists.mpr ⟨base, hbase⟩, hread,
    rfl⟩

/-- It is known by what its density suffix leaves of its base name. -/
theorem identifier_of_mem_images {table : DensityTable} {c : Catalog Image}
    (h : (images fs dir table).result = .ok c) {i : Image} (hi : i ∈ c.assets) :
    ∃ base, imageBase? i.fileName = some base ∧ i.identifier = .sanitize (table.split base).1 := by
  obtain ⟨names, name, base, -, -, hbase, hload⟩ := exists_loadImage_of_mem h hi
  obtain ⟨content, -, rfl⟩ := loadImage_eq_ok.mp hload
  exact ⟨base, hbase, rfl⟩

theorem loadShader_eq_ok {name : String} {s : Shader} :
    (loadShader fs dir name).result = .ok s ↔
      ∃ source, FileSystem.read fs (dir.push name) = .ok source ∧
        s = ⟨.sanitize name, name, source⟩ := by
  simp only [loadShader, ask, Traced.result_bind, Traced.result_ofExcept, Traced.result_note,
    Traced.result_pure, Except.ok_bind, Except.bind_eq_ok, Except.mapError_eq_ok, Except.ok.injEq]
  exact exists_congr fun source => and_congr_right fun _ => eq_comm

/-- A shader that is found is known by the whole name of its file. -/
theorem identifier_of_mem_shaders {extensions : List String} {c : Catalog Shader}
    (h : (shaders fs dir extensions).result = .ok c) {s : Shader} (hs : s ∈ c.assets) :
    s.identifier = .sanitize s.fileName := by
  rw [shaders, Traced.result_bind, Except.bind_eq_ok] at h
  obtain ⟨names, -, hcollect⟩ := h
  rcases mem_collect hcollect hs with hnone | ⟨name, -, hload⟩
  · cases hnone
  · obtain ⟨source, -, rfl⟩ := loadShader_eq_ok.mp hload
    rfl

/-! ## What is looked at -/

/-- Whether a file of this name is selected: it may be an asset, and is wanted. -/
def isSelected (rules : IgnoreRules) (wanted : String → Bool) (name : String) : Bool :=
  isCandidate rules name && wanted name

/-- The two states have the same files for a scan of the directory to select. -/
structure SameSelection (dir : Path) (wanted : String → Bool) (fs fs' : σ) : Prop where
  isDir : FileSystem.isDir fs' dir = FileSystem.isDir fs dir
  rules : (ignoreRules fs' dir).result = (ignoreRules fs dir).result
  listing : ∀ rules, (ignoreRules fs dir).result = .ok rules →
    (FileSystem.listFiles fs' dir).map (List.filter (isSelected rules wanted)) =
      (FileSystem.listFiles fs dir).map (List.filter (isSelected rules wanted))
  files : ∀ rules names, (ignoreRules fs dir).result = .ok rules →
    FileSystem.listFiles fs dir = .ok names → ∀ name ∈ names, isSelected rules wanted name = true →
    FileSystem.read fs' (dir.push name) = FileSystem.read fs (dir.push name)

/-- The settings of a directory depend on its settings file, -/
theorem load_congr
    (hthere : FileSystem.isThere fs' (dir.push configFileName) =
      FileSystem.isThere fs (dir.push configFileName))
    (hread : FileSystem.read fs' (dir.push configFileName) =
      FileSystem.read fs (dir.push configFileName)) : Config.load fs' dir = Config.load fs dir := by
  simp only [Config.load, FileSystem.readText, hthere, hread]

/-- and what is ignored on its ignore file. -/
theorem ignoreRules_congr
    (hthere : FileSystem.isThere fs' (dir.push ignoreFileName) =
      FileSystem.isThere fs (dir.push ignoreFileName))
    (hread : FileSystem.read fs' (dir.push ignoreFileName) =
      FileSystem.read fs (dir.push ignoreFileName)) : ignoreRules fs' dir = ignoreRules fs dir := by
  simp only [ignoreRules, FileSystem.readText, hthere, hread]

/-- The two states look the same to a scan of the directory for files with wanted names. -/
structure SameView (dir : Path) (wanted : String → Bool) (fs fs' : σ) : Prop where
  isDir : FileSystem.isDir fs' dir = FileSystem.isDir fs dir
  isThere : ∀ name ∈ [configFileName, ignoreFileName],
    FileSystem.isThere fs' (dir.push name) = FileSystem.isThere fs (dir.push name)
  own : ∀ name ∈ [configFileName, ignoreFileName],
    FileSystem.read fs' (dir.push name) = FileSystem.read fs (dir.push name)
  listing : (FileSystem.listFiles fs' dir).map (List.filter wanted) =
    (FileSystem.listFiles fs dir).map (List.filter wanted)
  files : ∀ names, FileSystem.listFiles fs dir = .ok names → ∀ name ∈ names,
    wanted name = true → FileSystem.read fs' (dir.push name) = FileSystem.read fs (dir.push name)

namespace SameView

variable {wanted : String → Bool}

theorem config (h : SameView dir wanted fs fs') : Config.load fs' dir = Config.load fs dir :=
  load_congr (h.isThere _ List.mem_cons_self) (h.own _ List.mem_cons_self)

theorem ignoreRules (h : SameView dir wanted fs fs') :
    Scan.ignoreRules fs' dir = Scan.ignoreRules fs dir :=
  ignoreRules_congr (h.isThere _ (by simp)) (h.own _ (by simp))

theorem selection (h : SameView dir wanted fs fs') : SameSelection dir wanted fs fs' where
  isDir := h.isDir
  rules := by rw [h.ignoreRules]
  listing := by
    intro rules _
    have hlisting := congrArg (Except.map (List.filter (isCandidate rules))) h.listing
    have hfilter : ∀ listed : Except FileError (List String),
        (listed.map (List.filter wanted)).map (List.filter (isCandidate rules)) =
          listed.map (List.filter (isSelected rules wanted)) := by
      intro listed
      cases listed with
      | error e => rfl
      | ok names => exact congrArg Except.ok List.filter_filter
    rwa [hfilter, hfilter] at hlisting
  files := fun _ names _ hnames name hname hselected =>
    h.files names hnames name hname (Bool.and_eq_true _ _ ▸ hselected).2

end SameView

/-! ## What is found -/

theorem isDir_of_candidates {names : List String} (h : (candidates fs dir).result = .ok names) :
    FileSystem.isDir fs dir = true := by
  rw [result_candidates] at h
  split at h
  · assumption
  · cases h

theorem isDir_of_shaders {extensions : List String} {c : Catalog Shader}
    (h : (shaders fs dir extensions).result = .ok c) : FileSystem.isDir fs dir = true := by
  rw [shaders, Traced.result_bind, Except.bind_eq_ok] at h
  exact isDir_of_candidates h.choose_spec.1

theorem isDir_of_images {table : DensityTable} {c : Catalog Image}
    (h : (images fs dir table).result = .ok c) : FileSystem.isDir fs dir = true := by
  rw [images, Traced.result_bind, Except.bind_eq_ok] at h
  exact isDir_of_candidates h.choose_spec.1

variable {wanted : String → Bool}

/-- Of what a scan considers, the names that are wanted are the same. -/
theorem candidates_congr (h : SameSelection dir wanted fs fs') :
    (candidates fs' dir).result.map (List.filter wanted) =
      (candidates fs dir).result.map (List.filter wanted) := by
  rw [result_candidates, result_candidates, h.isDir, h.rules]
  split
  · cases hrules : (ignoreRules fs dir).result with
    | error e => rfl
    | ok rules =>
      have hlisting := h.listing rules hrules
      cases hl : FileSystem.listFiles fs dir <;> cases hl' : FileSystem.listFiles fs' dir <;>
        rw [hl, hl'] at hlisting
      case error.error e e' =>
        cases hlisting
        rfl
      case ok.ok listed listed' =>
        have hfilter : listed'.filter (isSelected rules wanted) =
            listed.filter (isSelected rules wanted) := Except.ok.inj hlisting
        have hboth : ∀ names : List String, (names.filter (isCandidate rules)).filter wanted =
            names.filter (isSelected rules wanted) := by
          intro names
          rw [List.filter_comm, List.filter_filter]
          rfl
        simp only [Except.ok_bind, Except.mapError, Except.map]
        rw [hboth, hfilter, hboth]
      all_goals cases hlisting
  · rfl

theorem read_of_mem_candidates (h : SameSelection dir wanted fs fs') {names : List String}
    (hnames : (candidates fs dir).result = .ok names) {name : String} (hname : name ∈ names)
    (hwanted : wanted name = true) :
    FileSystem.read fs' (dir.push name) = FileSystem.read fs (dir.push name) := by
  rw [result_candidates] at hnames
  split at hnames
  · obtain ⟨rules, hrules, hnames⟩ := Except.bind_eq_ok.mp hnames
    obtain ⟨listed, hlisted, hnames⟩ := Except.bind_eq_ok.mp hnames
    cases hnames
    obtain ⟨hmem, hcandidate⟩ := List.mem_filter.mp hname
    refine h.files rules listed hrules (Except.mapError_eq_ok.mp hlisted) name hmem ?_
    rw [isSelected, hcandidate, hwanted]
    rfl
  · cases hnames

theorem collect_congr {load load' : β → Traced RunError α} {bs : List β}
    (h : ∀ b ∈ bs, load' b = load b) (c : Catalog α) : collect load' c bs = collect load c bs := by
  induction bs generalizing c with
  | nil => rfl
  | cons b bs ih =>
    have hrest := fun c => ih (fun b hb => h b (List.mem_cons_of_mem _ hb)) c
    simp only [collect, h b List.mem_cons_self, hrest]

/-- What is picked out of the candidates and loaded from them is the same. -/
theorem collect_candidates_congr (h : SameSelection dir wanted fs fs') {pick : String → Option β}
    {load load' : β → Traced RunError α}
    (hpick : ∀ name b, pick name = some b → wanted name = true)
    (hload : ∀ name b, pick name = some b →
      FileSystem.read fs' (dir.push name) = FileSystem.read fs (dir.push name) → load' b = load b) :
    (do let names ← candidates fs' dir; collect load' .empty (names.filterMap pick)).result =
      (do let names ← candidates fs dir; collect load .empty (names.filterMap pick)).result := by
  have hwanted : ∀ names : List String,
      names.filterMap pick = (names.filter wanted).filterMap pick := by
    intro names
    rw [List.filterMap_filter]
    congr 1
    funext name
    cases hname : pick name with
    | none => simp
    | some b => rw [if_pos (hpick name b hname)]
  have hsame := candidates_congr h
  rw [Traced.result_bind, Traced.result_bind]
  cases hnames : (candidates fs dir).result <;> cases hnames' : (candidates fs' dir).result <;>
    rw [hnames, hnames'] at hsame
  case error.error e e' =>
    cases hsame
    rfl
  case ok.ok names names' =>
    have hfilter : names'.filter wanted = names.filter wanted := Except.ok.inj hsame
    rw [Except.ok_bind, Except.ok_bind, hwanted names', hfilter, ← hwanted]
    refine congrArg Traced.result (collect_congr (fun b hb => ?_) _)
    obtain ⟨name, hname, hb⟩ := List.mem_filterMap.mp hb
    exact hload name b hb (read_of_mem_candidates h hnames hname (hpick name b hb))
  all_goals cases hsame

/-- The shaders of both states are the same. -/
theorem shaders_congr {extensions : List String}
    (h : SameSelection dir (isShaderName extensions) fs fs') :
    (shaders fs' dir extensions).result = (shaders fs dir extensions).result := by
  have hpick : ∀ name b, Option.guard (fun name => isShaderName extensions name) name = some b →
      name = b ∧ isShaderName extensions name = true := fun _ _ => Option.guard_eq_some_iff.mp
  rw [shaders, shaders, ← List.filterMap_eq_filter]
  refine collect_candidates_congr h (fun name b hb => (hpick name b hb).2) fun name b hb hread => ?_
  obtain ⟨rfl, -⟩ := hpick name b hb
  rw [loadShader, loadShader, hread]

/-- So are the images. -/
theorem images_congr (h : SameSelection dir (fun name => (imageBase? name).isSome) fs fs')
    (table : DensityTable) : (images fs' dir table).result = (images fs dir table).result := by
  refine collect_candidates_congr h (fun name b hb => ?_) fun name b hb hread => ?_
  · exact Option.isSome_iff_exists.mpr ((Option.map_eq_some_iff.mp hb).imp fun _ => And.left)
  · obtain ⟨base, -, rfl⟩ := Option.map_eq_some_iff.mp hb
    rw [loadImage, loadImage, hread]

end Scan

end AssetPack
