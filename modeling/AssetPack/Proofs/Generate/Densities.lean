import AssetPack.Proofs.Config.Density
import AssetPack.Proofs.Emit.Densities
import AssetPack.Proofs.Generate.Crunching

/-!
# Densities that reach a class

A density comes into a class by way of a suffix in the settings or a built-in one, the table made
from both, the name of a file that ends in the suffix, and an image of a catalog. Crunching takes a
new image's bytes and format from elsewhere, but keeps its density. The settings are looked through
when they are loaded (`Config.fits_load`); this file follows the bound from there to the text.
-/

set_option autoImplicit false

namespace AssetPack

namespace Scan

/-- The images that are found with a table of settings within the bound are within it. -/
theorem density_le_of_mem_images {σ : Type} [FileSystem σ] {fs : σ} {dir : Path} {config : Config}
    (hfits : config.Fits) {catalog : Catalog Image}
    (h : (images fs dir config.densityTable).result = .ok catalog) :
    ∀ i ∈ catalog.assets, i.density.dpi ≤ 2147483647 := by
  intro i hi
  obtain ⟨names, name, base, -, -, -, hload⟩ := exists_loadImage_of_mem h hi
  obtain ⟨content, -, rfl⟩ := loadImage_eq_ok.mp hload
  exact hfits.split_le base

end Scan

namespace Generate

variable {σ : Type} {s t s' : σ}

/-- What crunching makes of images has their densities. -/
theorem densities_finalCatalog [FileSystem σ] {chosen : Option (Cruncher σ × Path)}
    {source : Path} {catalog final : Catalog Image} (h : (finalCatalog chosen source catalog).Ends s (.ok final) t) :
    final.assets.map Image.density = catalog.assets.map Image.density := by
  match chosen, h with
  | none, h =>
    cases h.1
    rfl
  | some (cruncher, scratch), h =>
    obtain ⟨_, _, -, h⟩ := Job.ends_bind_ok.mp h
    obtain ⟨_, fs, -, h⟩ := Job.ends_bind_ok.mp h
    have hmade := (Job.ends_inspect.mp h).1
    rcases result_mapM_crunchedImage fs scratch catalog with
      ⟨made, hresult, hall⟩ | ⟨_, _, _, _, hfailed⟩
    · obtain rfl : made = final := Except.ok.inj (hresult.symm.trans hmade)
      have hsame : List.Forall₂ (fun i' i : Image => i'.density = i.density)
          made.assets catalog.assets := hall.flip.imp fun _ _ h => h.density
      rw [← List.forall₂_eq_eq_eq, List.forall₂_map_left_iff, List.forall₂_map_right_iff]
      exact hsame
    · cases hmade.symm.trans hfailed

/-- What a run for images writes names the densities of its images, and they are within the
bound. -/
theorem written_densities_le [Machine σ] {o : ImageOptions} {env : ToolEnv}
    {given : Option (Cruncher σ)} {out : Outcome} (hends : (images o env given).Ends s (.ok out) s')
    (hwritten : out.status = .written) :
    ∃ t text, FileSystem.write t out.path (Text.Utf8.encode text) = (.ok (), s') ∧
      (Java.initializers "srcDensityDpi".toList text).length = out.assets ∧
      ∀ digits ∈ Java.initializers "srcDensityDpi".toList text,
        ∃ n ≤ 2147483647, digits = (toString n).toList := by
  obtain ⟨c, config, chosen, found, -, hconfig, -, hfound, hcases⟩ := images_ends_ok.mp hends
  obtain ⟨warnings, hload⟩ := readConfig_eq_ok.mp hconfig
  rcases hcases with ⟨-, rfl, -⟩ | ⟨-, final, t, hfinal, rfl, hwrite⟩
  · cases hwritten
  · have hhex : '\n' ∉ found.fingerprint.hex.toList := by
      rw [(of_surveyImages hfound).2.1]
      exact Fingerprint.lf_notMem_hex .images _
    have hnamed : Java.initializers "srcDensityDpi".toList
        (Emit.images c final found.fingerprint) =
          (found.catalog.assets.map Image.density).map fun d => (toString d.dpi).toList := by
      rw [← densities_finalCatalog hfinal, List.map_map]
      exact Emit.initializers_images c final hhex
    refine ⟨t, _, hwrite, ?_, ?_⟩
    · rw [hnamed, List.length_map, List.length_map]
      exact found.catalog.length_assets
    · intro digits hdigits
      rw [hnamed] at hdigits
      obtain ⟨d, hd, rfl⟩ := List.mem_map.mp hdigits
      obtain ⟨i, hi, rfl⟩ := List.mem_map.mp hd
      obtain ⟨catalog, hscan, hsurvey⟩ := surveyImages_eq_ok.mp hfound
      obtain ⟨current, -, rfl⟩ := survey_eq_ok.mp hsurvey
      have hbound := Scan.density_le_of_mem_images (Config.fits_load hload) hscan
      exact ⟨i.density.dpi, hbound i hi, rfl⟩

/-- **Densities in a class are integers of its language.** Whatever a run for images has written
names one density for each of its images, and each of these is a number from 0 to 2147483647; and
settings that can be read are refused just if one of their densities is larger, namely for the one
whose suffix is least, byte by byte, whatever that suffix is. -/
theorem densities_fit [Machine σ] :
    (∀ (o : ImageOptions) (env : ToolEnv) (given : Option (Cruncher σ)) (s s' : σ) (out : Outcome),
      (images o env given).Ends s (.ok out) s' → out.status = .written →
      ∃ t text, FileSystem.write t out.path (Text.Utf8.encode text) = (.ok (), s') ∧
        (Java.initializers "srcDensityDpi".toList text).length = out.assets ∧
        ∀ digits ∈ Java.initializers "srcDensityDpi".toList text,
          ∃ n ≤ 2147483647, digits = (toString n).toList) ∧
    ∀ (file : Path) (text : String) (entries : Toml.Entries) (p : Config.Partial),
      Toml.parse? text.toList = some entries → Config.ofEntries entries = .ok p →
      ((∃ e, Config.parse file text = .error e) ↔ ∃ d ∈ p.config.densities, 2147483647 < d.2) ∧
      ∀ e, Config.parse file text = .error e → ∃ suffix dpi,
        e = ⟨file, .densityTooLarge suffix dpi⟩ ∧
        Config.LeastOversized p.config.densities suffix dpi :=
  ⟨fun _ _ _ _ _ _ => written_densities_le, fun _ _ _ _ => Config.refused_iff_oversized⟩

/-! ### Two densities that are too large -/

namespace Oversized

/-- Settings with two densities that are too large; one of them has the empty suffix. -/
def settings : String := "[images.densities]\n\"\" = 3000000000\n-x = 2147483648\n"

/-- Entries with two densities. -/
def entries (d e : String × Int) : Toml.Entries :=
  [("images", .table .implied
    [("densities", .table .header [(d.1, .integer d.2), (e.1, .integer e.2)])])]

/-- The two densities of such entries. -/
def pair? : Toml.Entries → Option ((String × Int) × (String × Int))
  | [("images", .table .implied
      [("densities", .table .header [(suffix, .integer n), (suffix', .integer n')])])] =>
    some ((suffix, n), (suffix', n'))
  | _ => none

theorem eq_entries {text : List Char} {d e : String × Int}
    (h : (Toml.parse? text).bind pair? = some (d, e)) : Toml.parse? text = some (entries d e) := by
  obtain ⟨read, hread, hpair⟩ := Option.bind_eq_some_iff.mp h
  rw [hread]
  unfold pair? at hpair
  split at hpair
  · cases hpair
    rfl
  · cases hpair

theorem parse_settings :
    Toml.parse? settings.toList = some (entries ("", 3000000000) ("-x", 2147483648)) :=
  eq_entries (by decide +kernel)

theorem ofEntries_entries :
    Config.ofEntries (entries ("", 3000000000) ("-x", 2147483648)) =
      .ok ⟨{ Config.default with densities := [("", 3000000000), ("-x", 2147483648)] }, []⟩ := by
  have hsorted : [("", 3000000000), ("-x", 2147483648)].mergeSort
      (fun a b : String × Nat => decide (a.1 ≤ b.1)) =
        [("", 3000000000), ("-x", 2147483648)] :=
    List.mergeSort_of_pairwise (by decide)
  have hdensities : Config.readDensities (.table .header
      [("", .integer 3000000000), ("-x", .integer 2147483648)]) =
        .ok [("", 3000000000), ("-x", 2147483648)] :=
    congrArg Except.ok hsorted
  have hset : ∀ p, Config.setDensities p (.table .header
      [("", .integer 3000000000), ("-x", .integer 2147483648)]) =
        .ok { p with config := { p.config with
          densities := [("", 3000000000), ("-x", 2147483648)] } } := by
    intro p
    rw [Config.setDensities, hdensities]
    rfl
  exact (bind_pure _).trans (hset _)

end Oversized

/-- Of two densities that are too large it is the one with the empty suffix that is reported, though
no file ends in it. And images without settings have built-in densities. -/
theorem densities_fit_built_in :
    Config.parse ⟨"/img/assetc.toml"⟩ Oversized.settings =
      .error ⟨⟨"/img/assetc.toml"⟩, .densityTooLarge "" 3000000000⟩ ∧
    ∃ out s' t text, (images Copied.options .empty (some (Cruncher.stamping addFile [0] []))).Ends
        Copied.start (.ok out) s' ∧
      FileSystem.write t out.path (Text.Utf8.encode text) = (.ok (), s') ∧
      (Java.initializers "srcDensityDpi".toList text).length = 2 ∧
      ∀ digits ∈ Java.initializers "srcDensityDpi".toList text,
        ∃ n ≤ 2147483647, digits = (toString n).toList := by
  obtain ⟨hwritten, hrefused⟩ := densities_fit (σ := Memory)
  constructor
  · obtain ⟨hiff, hleast⟩ := hrefused ⟨"/img/assetc.toml"⟩ _ _ _ Oversized.parse_settings
      Oversized.ofEntries_entries
    obtain ⟨e, he⟩ := hiff.mpr ⟨("", 3000000000), List.mem_cons_self, by decide⟩
    obtain ⟨suffix, dpi, rfl, hmem, -, hless⟩ := hleast e he
    rcases List.mem_cons.mp hmem with hpair | hpair
    · cases hpair
      exact he
    · cases List.mem_singleton.mp hpair
      exact absurd (by decide) (hless ("", 3000000000) List.mem_cons_self (by decide))
  · obtain ⟨out, hresult, hstatus⟩ : ∃ out,
        ((images Copied.options .empty (some (Cruncher.stamping addFile [0] []))).run
          Copied.start).1.result = .ok out ∧ (out.status, out.assets) = (.written, 2) :=
      Except.exists_eq_ok_of_toOption (by decide +kernel)
    obtain ⟨hstatus, hassets⟩ := Prod.mk.inj hstatus
    obtain ⟨t, text, hwrite, hlength, hall⟩ :=
      hwritten _ _ _ Copied.start _ out ⟨hresult, rfl⟩ hstatus
    exact ⟨out, _, t, text, ⟨hresult, rfl⟩, hwrite, hlength.trans hassets, hall⟩

end Generate

end AssetPack
