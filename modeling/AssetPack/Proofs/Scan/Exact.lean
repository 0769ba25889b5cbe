import AssetPack.Proofs.Asset.Density
import AssetPack.Proofs.Files.Listing
import AssetPack.Proofs.Scan

/-!
# A scan finds every asset once

Which files of a directory a scan takes, in which order, and what it makes of each of them is said
without the scan: by the files of the directory (`Considered`) and by their names (`ImageOf`,
`ShaderOf`). What comes of all of them together depends on the identifiers alone (`Outcome`): either
they are all different, and each file has its asset, or there is a first file whose identifier was
taken, and that one is named with the one that took it.

The two scans differ in how a name is read and in nothing else; `exists_outcome` is what they share.
-/

set_option autoImplicit false

namespace AssetPack.Scan

open Text Memory Catalog DensityTable

variable {m : Memory} {dir : Path} {rules : IgnoreRules}

/-! ## What there is to find -/

/-- The names of the files right in a directory that are not hidden and not ignored, and are of some
kind, in ascending order. -/
structure Considered (m : Memory) (dir : Path) (rules : IgnoreRules) (named : String → Prop)
    (names : List String) : Prop where
  ascending : names.Pairwise fun a b => Utf8.encode a.toList < Utf8.encode b.toList
  mem_iff : ∀ name, name ∈ names ↔
    (∃ bytes, m.HasFile dir name bytes) ∧ name.toList.head? ≠ some '.' ∧
      rules.isIgnored name = false ∧ named name

/-- What stands before the longer one of the two ends that the name of an image may have. -/
inductive ImageBase (name : String) : String → Prop
  | ninePatch {base : String} (h : name = base ++ ".9.png") : ImageBase name base
  | plain {base : String} (h : name = base ++ ".png") (hnot : ¬ ".9.png".toList <:+ name.toList) :
      ImageBase name base

/-- The image of a file: known by its base name without the suffix that tells its density. -/
structure ImageOf (m : Memory) (dir : Path) (table : DensityTable) (name : String) (i : Image) :
    Prop where
  fileName : i.fileName = name
  content : m.HasFile dir name i.content
  format : i.format = .bitmap
  identifier : ∃ base rest, ImageBase name base ∧ SplitsOff table base rest i.density ∧
    i.identifier = .sanitize rest

/-- What stands behind the last dot of the name is one of the extensions. -/
def HasExtension (extensions : List String) (name : String) : Prop :=
  ∃ stem, ∃ extension ∈ extensions, name = stem ++ "." ++ extension ∧ '.' ∉ extension.toList

/-- The shader of a file: known by the whole name. -/
structure ShaderOf (m : Memory) (dir : Path) (name : String) (s : Shader) : Prop where
  fileName : s.fileName = name
  source : m.HasFile dir name s.source
  identifier : s.identifier = .sanitize name

/-- What comes of a scan that finds these assets, one after the other. -/
structure Outcome {α : Type} [Asset α] (assets : List α) (result : Except RunError (Catalog α)) :
    Prop where
  ok_iff : (∃ c, result = .ok c) ↔ Distinct assets
  perm : ∀ c, result = .ok c → c.assets.Perm assets
  duplicate : ∀ e, result = .error e → ∃ before a after b, assets = before ++ a :: after ∧
    Distinct before ∧ b ∈ before ∧ Asset.identifier b = Asset.identifier a ∧
    e = .duplicate ⟨Asset.identifier a, Asset.fileName b, Asset.fileName a⟩

/-! ## Names -/

theorem imageBase_of_imageBase? {name base : String} (h : imageBase? name = some base) :
    ImageBase name base := by
  have hends : ∀ {ending rest : List Char}, ending.isSuffixOf? name.toList = some rest →
      name = String.ofList rest ++ String.ofList ending := by
    intro ending rest hrest
    rw [List.isSuffixOf?_eq_some_iff_append_eq] at hrest
    apply String.toList_inj.mp
    simp [hrest]
  unfold imageBase? at h
  dsimp only at h
  cases hpatch : ninePatchEnd.isSuffixOf? name.toList with
  | some rest =>
    rw [hpatch] at h
    obtain rfl := Option.some.inj h
    exact .ninePatch (hends hpatch)
  | none =>
    rw [hpatch] at h
    obtain ⟨rest, hrest, rfl⟩ := Option.map_eq_some_iff.mp h
    refine .plain (hends hrest) ?_
    rintro ⟨front, hfront⟩
    have hsome : ninePatchEnd.isSuffixOf? name.toList = some front :=
      List.isSuffixOf?_eq_some_iff_append_eq.mpr hfront
    rw [hsome] at hpatch
    cases hpatch

theorem isShaderName_iff_hasExtension {extensions : List String} {name : String}
    (h : name.toList.head? ≠ some '.') :
    isShaderName extensions name = true ↔ HasExtension extensions name := by
  rw [isShaderName_iff]
  simp only [Path.extension?_eq_some_iff h]
  constructor
  · rintro ⟨extension, hmem, stem, hname, hdot⟩
    exact ⟨stem, extension, hmem, hname, hdot⟩
  · rintro ⟨stem, extension, hmem, hname, hdot⟩
    exact ⟨extension, hmem, stem, hname, hdot⟩

/-! ## Candidates in memory -/

theorem result_candidates_of_ok (hdir : m.isDir dir = true) (hfault : m.fault? dir = none)
    (hrules : (ignoreRules m dir).result = .ok rules) :
    (candidates m dir).result = .ok ((m.fileNames dir).filter (isCandidate rules)) := by
  have hlisted : FileSystem.listFiles m dir = .ok (m.fileNames dir) := by
    show m.guarded dir _ = _
    rw [guarded_eq, hfault, if_pos hdir]
  have hthere : FileSystem.isDir m dir = true := hdir
  rw [result_candidates, hthere, if_pos rfl, hrules, hlisted]
  rfl

theorem considered_filter {named : String → Prop} {pick : String → Bool}
    (hpick : ∀ name : String, name.toList.head? ≠ some '.' → (pick name = true ↔ named name)) :
    Considered m dir rules named (((m.fileNames dir).filter (isCandidate rules)).filter pick) where
  ascending := ((pairwise_fileNames m dir).imp Utf8.lt_iff_bytes.mp).filter _ |>.filter _
  mem_iff := by
    intro name
    have hvisible : isHidden name = false ↔ name.toList.head? ≠ some '.' := by
      simp [isHidden]
    rw [List.mem_filter, List.mem_filter, mem_fileNames_iff, isCandidate, Bool.and_eq_true,
      Bool.not_eq_true', Bool.not_eq_true', hvisible]
    constructor
    · rintro ⟨⟨hfile, hunignored, hname⟩, hpicked⟩
      exact ⟨hfile, hname, hunignored, (hpick name hname).mp hpicked⟩
    · rintro ⟨hfile, hname, hunignored, hnamed⟩
      exact ⟨⟨hfile, hunignored, hname⟩, (hpick name hname).mpr hnamed⟩

/-! ## Collecting -/

section Collect

variable {α β : Type} [Asset α] {load : β → Traced RunError α}

/-- If everything is loaded, collecting is making a catalog of what was loaded. -/
theorem result_collect {bs : List β} {assets : List α}
    (h : List.Forall₂ (fun b a => (load b).result = .ok a) bs assets) (c : Catalog α) :
    (collect load c bs).result = (assets.foldlM Catalog.insert c).mapError .duplicate := by
  induction h generalizing c with
  | nil => rfl
  | @cons b a bs assets hload _ ih =>
    rw [collect, Traced.result_bind, hload, Except.ok_bind, Traced.result_bind,
      Traced.result_ofExcept, List.foldlM_cons]
    cases c.insert a with
    | error e => rfl
    | ok d => exact ih d

theorem outcome_ofList (assets : List α) :
    Outcome assets ((Catalog.ofList assets).mapError .duplicate) where
  ok_iff := by
    simp only [Except.mapError_eq_ok]
    exact exists_ofList_iff
  perm := by
    intro c hc
    exact (ofList_eq_ok.mp (Except.mapError_eq_ok.mp hc)).2
  duplicate := by
    intro e he
    obtain ⟨cause, hcause, rfl⟩ := Except.mapError_eq_error.mp he
    obtain ⟨before, a, after, b, hassets, hbefore, hb, hsame, rfl⟩ := ofList_eq_error hcause
    exact ⟨before, a, after, b, hassets, hbefore, hb, hsame, rfl⟩

/-- What is loaded one by one has an outcome. -/
theorem exists_outcome {R : β → α → Prop} {bs : List β}
    (h : ∀ b ∈ bs, ∃ a, (load b).result = .ok a ∧ R b a) :
    ∃ assets, List.Forall₂ R bs assets ∧ Outcome assets (collect load .empty bs).result := by
  obtain ⟨assets, hboth⟩ : ∃ assets,
      List.Forall₂ (fun b a => (load b).result = .ok a ∧ R b a) bs assets := by
    induction bs with
    | nil => exact ⟨[], .nil⟩
    | cons b bs ih =>
      rw [List.forall_mem_cons] at h
      obtain ⟨a, ha⟩ := h.1
      obtain ⟨assets, hassets⟩ := ih h.2
      exact ⟨a :: assets, .cons ha hassets⟩
  refine ⟨assets, hboth.imp fun _ _ => And.right, ?_⟩
  rw [result_collect (hboth.imp fun _ _ => And.left)]
  exact outcome_ofList assets

end Collect

/-! ## One file -/

theorem exists_image {table : DensityTable} (htable : table.Ordered) {name base : String}
    (hlisted : name ∈ m.fileNames dir) (hfault : m.fault? (dir.push name) = none)
    (hbase : imageBase? name = some base) :
    ∃ i, (loadImage m dir table (name, base)).result = .ok i ∧ ImageOf m dir table name i := by
  obtain ⟨bytes, hbytes, hfile⟩ := exists_read hlisted hfault
  refine ⟨_, loadImage_eq_ok.mpr ⟨bytes, hbytes, rfl⟩, rfl, hfile, rfl, base, _, ?_, ?_, rfl⟩
  · exact imageBase_of_imageBase? hbase
  · exact splitsOff_split htable base

theorem exists_shader {name : String} (hlisted : name ∈ m.fileNames dir)
    (hfault : m.fault? (dir.push name) = none) :
    ∃ s, (loadShader m dir name).result = .ok s ∧ ShaderOf m dir name s := by
  obtain ⟨bytes, hbytes, hfile⟩ := exists_read hlisted hfault
  exact ⟨_, loadShader_eq_ok.mpr ⟨bytes, hbytes, rfl⟩, rfl, hfile, rfl⟩

/-- An image is loaded from its name and its base name; the names are those that have one. -/
theorem map_fst_filterMap_imageBase? (names : List String) :
    (names.filterMap fun name => (imageBase? name).map (name, ·)).map Prod.fst =
      names.filter fun name => (imageBase? name).isSome := by
  rw [List.map_filterMap, ← List.filterMap_eq_filter]
  refine List.filterMap_congr fun name _ => ?_
  cases hbase : imageBase? name <;> simp [Option.guard, hbase]

/-! ## The scans -/

section Scans

variable (hdir : m.isDir dir = true) (hfault : m.fault? dir = none)
  (hrules : (ignoreRules m dir).result = .ok rules)

include hdir hfault hrules

theorem images_exact {table : DensityTable} (htable : table.Ordered) :
    ∃ names, Considered m dir rules (fun name => ".png".toList <:+ name.toList) names ∧
      ((∀ name ∈ names, m.fault? (dir.push name) = none) →
        ∃ found, List.Forall₂ (ImageOf m dir table) names found ∧
          Outcome found (images m dir table).result) := by
  refine ⟨_, considered_filter fun _ _ => isSome_imageBase?, ?_⟩
  rw [images, Traced.result_bind, result_candidates_of_ok hdir hfault hrules, Except.ok_bind,
    ← map_fst_filterMap_imageBase?]
  simp only [List.forall_mem_map, List.forall₂_map_left_iff]
  intro hreads
  refine exists_outcome ?_
  rintro ⟨name, base⟩ hpair
  have hread : m.fault? (dir.push name) = none := hreads (name, base) hpair
  obtain ⟨name', hname, hsome⟩ := List.mem_filterMap.mp hpair
  obtain ⟨base', hbase, heq⟩ := Option.map_eq_some_iff.mp hsome
  obtain ⟨rfl, rfl⟩ := Prod.mk.inj heq
  show ∃ i, (loadImage m dir table (name', base')).result = .ok i ∧ ImageOf m dir table name' i
  exact exists_image htable (List.mem_filter.mp hname).1 hread hbase

theorem shaders_exact (extensions : List String) :
    ∃ names, Considered m dir rules (HasExtension extensions) names ∧
      ((∀ name ∈ names, m.fault? (dir.push name) = none) →
        ∃ found, List.Forall₂ (ShaderOf m dir) names found ∧
          Outcome found (shaders m dir extensions).result) := by
  refine ⟨_, considered_filter fun _ => isShaderName_iff_hasExtension, ?_⟩
  rw [shaders, Traced.result_bind, result_candidates_of_ok hdir hfault hrules, Except.ok_bind]
  intro hreads
  refine exists_outcome fun name hname => ?_
  exact exists_shader (List.mem_filter.mp (List.mem_filter.mp hname).1).1 (hreads name hname)

/-- **A scan finds exactly what is there.** It takes, in ascending order, each file that is not
hidden, not ignored and named like an asset, and makes one asset of it. If all of them can be read,
it succeeds just when the identifiers are different, with these assets; otherwise the first file
whose identifier was taken is refused, and named with the one that took it. -/
theorem scans_exact :
    (∀ pairs overrides,
      ∃ names, Considered m dir rules (fun name => ".png".toList <:+ name.toList) names ∧
        ((∀ name ∈ names, m.fault? (dir.push name) = none) →
          ∃ found, List.Forall₂ (ImageOf m dir (made pairs overrides)) names found ∧
            Outcome found (images m dir (made pairs overrides)).result)) ∧
    ∀ extensions,
      ∃ names, Considered m dir rules (HasExtension extensions) names ∧
        ((∀ name ∈ names, m.fault? (dir.push name) = none) →
          ∃ found, List.Forall₂ (ShaderOf m dir) names found ∧
            Outcome found (shaders m dir extensions).result) := by
  constructor
  · intro pairs overrides
    exact images_exact hdir hfault hrules (ordered_made pairs overrides)
  · intro extensions
    exact shaders_exact hdir hfault hrules extensions

end Scans

namespace Crowded

/-- Two images with one identifier, and files that are hidden, ignored, or in another directory. -/
def files : Memory :=
  ((((((Memory.empty.add ⟨"/a/.assetignore"⟩ (Utf8.encode "wip*\n".toList)).add
    ⟨"/a/.tap.png"⟩ [0]).add ⟨"/a/tap-hdpi.png"⟩ [1]).add ⟨"/a/tap.9.png"⟩ [2]).add
    ⟨"/a/tap.fsh"⟩ [3]).add ⟨"/a/wip.png"⟩ [4]).add ⟨"/a/sub/tap.png"⟩ [5]

end Crowded

/-- The nine-patch has the identifier of the image in front of it, and the two suffixes that fit this
one are one inside the other. -/
theorem scans_exact_crowded :
    ∃ rules, (ignoreRules Crowded.files ⟨"/a"⟩).result = .ok rules ∧
      (∃ names found, Considered Crowded.files ⟨"/a"⟩ rules
          (fun name => ".png".toList <:+ name.toList) names ∧
        List.Forall₂ (ImageOf Crowded.files ⟨"/a"⟩ (made [("-hdpi", 240)] [[("hdpi", 1)]]))
          names found ∧
        Outcome found (images Crowded.files ⟨"/a"⟩ (made [("-hdpi", 240)] [[("hdpi", 1)]])).result) ∧
      (images Crowded.files ⟨"/a"⟩ (made [("-hdpi", 240)] [[("hdpi", 1)]])).result =
        .error (.duplicate ⟨.sanitize "tap", "tap-hdpi.png", "tap.9.png"⟩) := by
  obtain ⟨rules, hrules, -⟩ : ∃ rules, (ignoreRules Crowded.files ⟨"/a"⟩).result = .ok rules ∧
      rules.isIgnored "wip.png" = true := Except.exists_eq_ok_of_toOption (by decide +kernel)
  obtain ⟨himages, -⟩ := scans_exact (m := Crowded.files) (by decide +kernel) rfl hrules
  obtain ⟨names, hnames, hfound⟩ := himages [("-hdpi", 240)] [[("hdpi", 1)]]
  obtain ⟨found, hfound, houtcome⟩ := hfound fun _ _ => rfl
  refine ⟨rules, hrules, ⟨names, found, hnames, hfound, houtcome⟩, ?_⟩
  exact Except.eq_error_of_map (f := Catalog.size) (by decide +kernel)

end AssetPack.Scan
