import AssetPack.Config.Load
import AssetPack.Proofs.Asset.Density
import AssetPack.Proofs.Job

/-!
# Densities that are too large

A density is any number of 32 bits, but an integer of the target language has a sign. The settings
are therefore looked through for one that is too large when they have been read, and nobody after
that looks again. So what is loaded is within the bound (`fits_load`), the table made from it is,
and so is the density of every image that is split by it (`split_le`).

Which of several is reported is a matter of order: the densities ascend in their suffixes
(`ascending_ofEntries`), and so the first one that is too large is the least. Every setter keeps the
order, and only one of them has anything to do with it.
-/

set_option autoImplicit false

namespace AssetPack.Config

open Text (Utf8.encode)
open Toml (Value)

variable {densities : List (String × Nat)} {suffix : String} {dpi : Nat} {p q : Partial}

/-! ## The order of densities -/

/-- Densities whose suffixes ascend. -/
def Ascending (densities : List (String × Nat)) : Prop := densities.Pairwise fun d e => d.1 ≤ e.1

theorem ascending_readDensities {v : Value} (h : readDensities v = .ok densities) :
    Ascending densities := by
  unfold readDensities at h
  split at h
  · cases h
  · obtain ⟨read, -, h⟩ := Except.bind_eq_ok.mp h
    cases h
    let le (a b : String × Nat) : Bool := decide (a.1 ≤ b.1)
    have htrans : ∀ a b c, le a b → le b c → le a c := fun a b c hab hbc =>
      decide_eq_true (le_trans (of_decide_eq_true hab) (of_decide_eq_true hbc))
    have htotal : ∀ a b, le a b || le b a := fun a b => by simpa [le] using le_total a.1 b.1
    exact (List.pairwise_mergeSort htrans htotal read).imp of_decide_eq_true

/-- The setter leaves densities that ascend, where it found such. -/
def KeepsOrder (set : Setter) : Prop :=
  ∀ p v q, set p v = .ok q → Ascending p.config.densities → Ascending q.config.densities

theorem keepsOrder_extensions : KeepsOrder setExtensions := by
  intro p v q h hp
  obtain ⟨extensions, -, h⟩ := Except.bind_eq_ok.mp h
  cases h
  exact hp

theorem keepsOrder_crunchTool : KeepsOrder setCrunchTool := by
  intro p v q h hp
  obtain ⟨tool, -, h⟩ := Except.bind_eq_ok.mp h
  cases h
  exact hp

/-- The one setter that makes densities puts them in order. -/
theorem keepsOrder_densities : KeepsOrder setDensities := by
  intro p v q h _
  obtain ⟨densities, hread, h⟩ := Except.bind_eq_ok.mp h
  cases h
  exact ascending_readDensities hread

theorem keepsOrder_readGroup {wanted : Wanted} {setters : List (String × Setter)}
    (h : ∀ s ∈ setters, KeepsOrder s.2) : KeepsOrder (readGroup wanted setters) := by
  intro p v q hq hp
  unfold readGroup at hq
  split at hq
  · refine Except.of_foldlM_eq_ok (P := fun p => Ascending p.config.densities) ?_ hp hq
    rintro p ⟨key, v⟩ - q hp hq
    dsimp only at hq
    split at hq
    · rename_i set hset
      exact h _ (mem_of_lookup_eq_some hset) p v q hq hp
    · cases hq
      exact hp
  · refine Except.of_foldlM_eq_ok (P := fun p => Ascending p.config.densities) ?_ hp hq
    intro p s hs q hp hq
    exact h s.1 (List.of_mem_zip hs).1 p s.2 q hq hp
  · cases hq

theorem keepsOrder_shaders : KeepsOrder setShaders :=
  keepsOrder_readGroup (by simpa using keepsOrder_extensions)

theorem keepsOrder_images : KeepsOrder setImages :=
  keepsOrder_readGroup (by simpa using ⟨keepsOrder_crunchTool, keepsOrder_densities⟩)

/-- Settings that are read have their densities in order. -/
theorem ascending_ofEntries {entries : Toml.Entries} (h : ofEntries entries = .ok p) :
    Ascending p.config.densities := by
  have hdefault : Ascending Config.default.densities := List.Pairwise.nil
  refine Except.of_foldlM_eq_ok (P := fun p => Ascending p.config.densities) ?_ hdefault h
  rintro p ⟨key, v⟩ - q hp hq
  dsimp only at hq
  split at hq
  · exact keepsOrder_shaders p v q hq hp
  · split at hq
    · exact keepsOrder_images p v q hq hp
    · cases hq
      exact hp

/-! ## The least one that is too large -/

/-- The density is too large, and of those that are it has the least suffix, byte by byte. -/
structure LeastOversized (densities : List (String × Nat)) (suffix : String) (dpi : Nat) :
    Prop where
  mem : (suffix, dpi) ∈ densities
  large : 2147483647 < dpi
  least : ∀ d ∈ densities, 2147483647 < d.2 →
    ¬ Utf8.encode d.1.toList < Utf8.encode suffix.toList

theorem oversized?_eq_none {c : Config} :
    c.oversized? = none ↔ ∀ d ∈ c.densities, d.2 ≤ 2147483647 := by
  rw [oversized?, List.find?_eq_none]
  exact forall₂_congr fun d _ => by rw [decide_eq_true_eq, Nat.not_lt, maxDensity]

theorem leastOversized_of_oversized? {c : Config} (hc : Ascending c.densities)
    (h : c.oversized? = some (suffix, dpi)) : LeastOversized c.densities suffix dpi := by
  obtain ⟨hlarge, before, after, heq, hbefore⟩ := List.find?_eq_some_iff_append.mp h
  refine ⟨List.mem_of_find?_eq_some h, of_decide_eq_true hlarge, fun d hd hdlarge => ?_⟩
  rw [← Text.Utf8.lt_iff_bytes, not_lt]
  -- Those in front are small enough, and those behind have larger suffixes.
  rw [Ascending, heq] at hc
  rw [heq, List.mem_append, List.mem_cons] at hd
  rcases hd with hd | rfl | hd
  · have hsmall := hbefore d hd
    simp [maxDensity, hdlarge] at hsmall
  · exact le_rfl
  · exact (List.pairwise_cons.mp (List.pairwise_append.mp hc).2.1).1 d hd

/-- Settings that are read are refused for the least density that is too large, and only if there
is one. -/
theorem parse_eq_error_iff {file : Path} {text : String} {entries : Toml.Entries}
    (hparse : Toml.parse? text.toList = some entries) (hread : ofEntries entries = .ok p)
    {e : ConfigError} : parse file text = .error e ↔
      ∃ d, p.config.oversized? = some d ∧ e = ⟨file, .densityTooLarge d.1 d.2⟩ := by
  simp only [parse, hparse, hread, Except.mapError, Except.ok_bind]
  cases p.config.oversized? with
  | none => simp [pure, Except.pure]
  | some d => simp [throw, throwThe, MonadExceptOf.throw, eq_comm]

/-- So whether they are refused, and for what, is decided by their densities alone. -/
theorem refused_iff_oversized {file : Path} {text : String} {entries : Toml.Entries}
    (hparse : Toml.parse? text.toList = some entries) (hread : ofEntries entries = .ok p) :
    ((∃ e, parse file text = .error e) ↔ ∃ d ∈ p.config.densities, 2147483647 < d.2) ∧
    ∀ e, parse file text = .error e → ∃ suffix dpi,
      e = ⟨file, .densityTooLarge suffix dpi⟩ ∧
      LeastOversized p.config.densities suffix dpi := by
  simp only [parse_eq_error_iff hparse hread]
  constructor
  · constructor
    · rintro ⟨e, d, hd, -⟩
      have hleast := leastOversized_of_oversized? (ascending_ofEntries hread) hd
      exact ⟨d, hleast.mem, hleast.large⟩
    · rintro ⟨d, hd, hlarge⟩
      cases hfound : p.config.oversized? with
      | none => exact absurd hlarge (Nat.not_lt.mpr (oversized?_eq_none.mp hfound d hd))
      | some found => exact ⟨_, found, rfl, rfl⟩
  · rintro e ⟨d, hd, rfl⟩
    exact ⟨d.1, d.2, rfl, leastOversized_of_oversized? (ascending_ofEntries hread) hd⟩

/-! ## What is within the bound -/

/-- No density is too large. -/
def Fits (c : Config) : Prop := ∀ d ∈ c.densities, d.2 ≤ 2147483647

theorem fits_parse {file : Path} {text : String} {c : Config} {warnings : List ConfigWarning}
    (h : parse file text = .ok (c, warnings)) : c.Fits := by
  unfold parse at h
  split at h
  · cases h
  · obtain ⟨p, -, h⟩ := Except.bind_eq_ok.mp h
    split at h
    · cases h
    · rename_i hnone
      cases h
      exact oversized?_eq_none.mp hnone

theorem fits_load {σ : Type} [FileSystem σ] {fs : σ} {dir : Path} {c : Config}
    {warnings : List ConfigWarning} (h : load fs dir = .ok (c, warnings)) : c.Fits := by
  simp only [load] at h
  split at h
  · cases h
    exact List.forall_mem_nil _
  · obtain ⟨text, -, h⟩ := Except.bind_eq_ok.mp h
    exact fits_parse (Except.mapError_eq_ok.mp h)

theorem Fits.densityTable {c : Config} (h : c.Fits) :
    ∀ e ∈ c.densityTable.entries, e.2.dpi ≤ 2147483647 := by
  intro e he
  rcases DensityTable.mem_assignAll he with hbuiltin | ⟨d, hd, rfl⟩
  · have hall : ∀ e ∈ DensityTable.builtin.entries, e.2.dpi ≤ 2147483647 := by decide
    exact hall e hbuiltin
  · exact h d hd

/-- The density that the table splits off a base name is within the bound, or is none. -/
theorem Fits.split_le {c : Config} (h : c.Fits) (base : String) :
    (c.densityTable.split base).2.dpi ≤ 2147483647 := by
  have hordered : c.densityTable.Ordered := DensityTable.ordered_made _ [c.densities]
  have hsplit := DensityTable.splitsOff_split hordered base
  generalize c.densityTable.split base = found at hsplit
  obtain ⟨rest, d⟩ := found
  cases hsplit with
  | suffix mem _ _ =>
    have hle := h.densityTable _ mem
    exact hle
  | whole _ => exact Nat.zero_le _

end AssetPack.Config
