import Mathlib.Data.String.Basic
import AssetPack.Asset.Catalog
import AssetPack.Proofs.Job
import AssetPack.Proofs.Lookup
import AssetPack.Proofs.Text.ByteOrder

/-!
# What is in a catalog

A catalog is in order by what it is. What is said here is which assets are in it: `put` adds one
under an identifier that is new and nothing else, and `mapM` does to the assets what it would do to
their list. As long as no asset gets another identifier, each is under its own (`Own`), and then the
assets determine the catalog. So the order of the files it was made from leaves no trace
(`ofList_eq_ok`).
-/

set_option autoImplicit false

namespace AssetPack

namespace Identifier

/-- Identifiers stand in the order of their bytes. -/
theorem name_lt_iff {i j : Identifier} :
    i.name < j.name ↔ Text.Utf8.encode i.name.toList < Text.Utf8.encode j.name.toList :=
  Text.Utf8.lt_iff_bytes

end Identifier

namespace Catalog

variable {α : Type} {c c' : Catalog α} {i j : Identifier} {a b : α}

theorem eq_of_entries_eq (h : c.entries = c'.entries) : c = c' := by
  cases c
  cases c'
  cases h
  rfl

theorem length_assets (c : Catalog α) : c.assets.length = c.size := List.length_map _

theorem length_identifiers (c : Catalog α) : c.identifiers.length = c.size := List.length_map _

/-- A catalog is its identifiers with its assets. -/
theorem eq_of_identifiers_eq (hids : c.identifiers = c'.identifiers) (hassets : c.assets = c'.assets) :
    c = c' := by
  refine eq_of_entries_eq ?_
  rw [← List.zip_unzip c.entries, ← List.zip_unzip c'.entries, List.unzip_eq_map, List.unzip_eq_map]
  exact congrArg₂ List.zip hids hassets

/-! ## Looking up -/

theorem nodup_identifiers (c : Catalog α) : c.identifiers.Nodup :=
  c.ascending.imp fun hlt heq => absurd (heq ▸ hlt) (lt_irrefl _)

theorem get?_eq_some : c.get? i = some a ↔ (i, a) ∈ c.entries :=
  lookup_eq_some_iff_mem c.nodup_identifiers

theorem get?_eq_none : c.get? i = none ↔ i ∉ c.identifiers := by
  rw [Option.eq_none_iff_forall_ne_some]
  constructor
  · intro h hmem
    obtain ⟨⟨_, a⟩, he, rfl⟩ := List.mem_map.mp hmem
    exact h a (get?_eq_some.mpr he)
  · intro h a ha
    exact h (List.mem_map_of_mem (get?_eq_some.mp ha))

/-! ## One entry more -/

theorem mem_place {e : Identifier × α} {entries : List (Identifier × α)}
    (hnew : i ∉ entries.map Prod.fst) : e ∈ place i a entries ↔ e = (i, a) ∨ e ∈ entries := by
  induction entries with
  | nil => simp [place]
  | cons d r ih =>
    rw [List.map_cons, List.mem_cons, not_or] at hnew
    rw [place, if_neg (Ne.symm hnew.1)]
    split
    · simp
    · rw [List.mem_cons, ih hnew.2, List.mem_cons]
      exact or_left_comm

theorem place_perm {entries : List (Identifier × α)} (hnew : i ∉ entries.map Prod.fst) :
    (place i a entries).Perm ((i, a) :: entries) := by
  induction entries with
  | nil => rfl
  | cons d r ih =>
    rw [List.map_cons, List.mem_cons, not_or] at hnew
    rw [place, if_neg (Ne.symm hnew.1)]
    split
    · rfl
    · exact ((ih hnew.2).cons d).trans (List.Perm.swap (i, a) d r)

/-! ## Under one's own identifier -/

variable [Asset α]

/-- Every asset is under its own identifier. -/
def Own (c : Catalog α) : Prop := ∀ e ∈ c.entries, Asset.identifier e.2 = e.1

/-- Assets whose identifiers are all different. -/
def Distinct (assets : List α) : Prop :=
  assets.Pairwise fun a b => Asset.identifier a ≠ Asset.identifier b

theorem own_empty : (empty : Catalog α).Own := fun _ he => nomatch he

theorem own_iff : c.Own ↔ c.assets.map Asset.identifier = c.identifiers := by
  rw [assets, identifiers, List.map_map, List.map_inj_left]
  rfl

namespace Own

theorem pairwise (h : c.Own) :
    c.assets.Pairwise fun a b => (Asset.identifier a).name < (Asset.identifier b).name := by
  have hascending := c.ascending
  rwa [← identifiers, ← own_iff.mp h, Ascending, List.pairwise_map] at hascending

theorem distinct (h : c.Own) {assets : List α} (hperm : c.assets.Perm assets) : Distinct assets := by
  have hdistinct : Distinct c.assets := h.pairwise.imp fun hlt heq => absurd (heq ▸ hlt) (lt_irrefl _)
  exact (hperm.pairwise_iff fun h => Ne.symm h).mp hdistinct

/-- What a catalog holds is found under its own identifier. -/
theorem get?_eq_some (h : c.Own) : c.get? i = some a ↔ a ∈ c.assets ∧ Asset.identifier a = i := by
  rw [Catalog.get?_eq_some, assets, List.mem_map]
  constructor
  · intro he
    exact ⟨⟨(i, a), he, rfl⟩, h _ he⟩
  · rintro ⟨⟨⟨j, a⟩, he, rfl⟩, rfl⟩
    have hown : Asset.identifier a = j := h _ he
    rwa [hown]

theorem entries_eq (h : c.Own) : c.entries = c.assets.map fun a => (Asset.identifier a, a) := by
  rw [assets, List.map_map]
  refine (List.map_id _).symm.trans (List.map_congr_left fun e he => ?_)
  exact Prod.ext (h e he).symm rfl

theorem eq_of_assets_eq (h : c.Own) (h' : c'.Own) (hassets : c.assets = c'.assets) : c = c' :=
  eq_of_entries_eq (by rw [h.entries_eq, h'.entries_eq, hassets])

end Own

/-- The catalog of assets that are in order. -/
def ofAscending (assets : List α) (h : Ascending (assets.map Asset.identifier)) : Catalog α where
  entries := assets.map fun a => (Asset.identifier a, a)
  ascending := by
    rw [List.map_map]
    exact h

@[simp] theorem assets_ofAscending {assets : List α} (h : Ascending (assets.map Asset.identifier)) :
    (ofAscending assets h).assets = assets := by
  rw [Catalog.assets, ofAscending, List.map_map]
  exact List.map_id _

theorem own_ofAscending {assets : List α} (h : Ascending (assets.map Asset.identifier)) :
    (ofAscending assets h).Own := by
  intro e he
  obtain ⟨a, -, rfl⟩ := List.mem_map.mp he
  rfl

/-! ## One insertion -/

theorem put_of_some (h : c.get? (Asset.identifier a) = some b) :
    c.put a = (.error ⟨Asset.identifier a, Asset.fileName b, Asset.fileName a⟩, c) := by
  rw [put, h]

theorem exists_put_of_none (h : c.get? (Asset.identifier a) = none) :
    ∃ c', c.put a = (.ok (), c') ∧ c'.entries = place (Asset.identifier a) a c.entries := by
  rw [put, h]
  exact ⟨_, rfl, rfl⟩

/-- An asset is taken just when its identifier is new. -/
theorem insert_eq_ok : c.insert a = .ok c' ↔ Asset.identifier a ∉ c.identifiers ∧
    c'.entries = place (Asset.identifier a) a c.entries := by
  rw [← get?_eq_none, insert]
  cases hget : c.get? (Asset.identifier a) with
  | none =>
    obtain ⟨d, hput, hd⟩ := exists_put_of_none hget
    rw [hput, ← hd]
    constructor
    · intro h
      cases h
      exact ⟨rfl, rfl⟩
    · rintro ⟨-, hentries⟩
      exact congrArg Except.ok (eq_of_entries_eq hentries.symm)
  | some b =>
    rw [put_of_some hget]
    exact iff_of_false nofun fun h => nomatch h.1

theorem insert_of_some (h : c.get? (Asset.identifier a) = some b) :
    c.insert a = .error ⟨Asset.identifier a, Asset.fileName b, Asset.fileName a⟩ := by
  rw [insert, put_of_some h]
  rfl

theorem put_of_insert_eq_ok (h : c.insert a = .ok c') : c.put a = (.ok (), c') := by
  obtain ⟨hnew, hentries⟩ := insert_eq_ok.mp h
  obtain ⟨d, hput, hd⟩ := exists_put_of_none (get?_eq_none.mpr hnew)
  rw [hput, eq_of_entries_eq (hd.trans hentries.symm)]

/-- An asset that is refused meets one that was taken before. -/
theorem exists_of_insert_eq_error {e : DuplicateIdentifier} (h : c.insert a = .error e) :
    ∃ b, c.get? (Asset.identifier a) = some b ∧
      e = ⟨Asset.identifier a, Asset.fileName b, Asset.fileName a⟩ := by
  cases hget : c.get? (Asset.identifier a) with
  | none =>
    obtain ⟨d, -, hd⟩ := exists_put_of_none hget
    have hok := insert_eq_ok.mpr ⟨get?_eq_none.mp hget, hd⟩
    rw [h] at hok
    cases hok
  | some b =>
    rw [insert_of_some hget] at h
    cases h
    exact ⟨b, rfl, rfl⟩

theorem mem_assets_of_insert (h : c.insert a = .ok c') : b ∈ c'.assets ↔ b = a ∨ b ∈ c.assets := by
  obtain ⟨hnew, hentries⟩ := insert_eq_ok.mp h
  simp only [assets, hentries, List.mem_map, mem_place hnew]
  simp [or_and_right, exists_or, eq_comm]

theorem perm_assets_of_insert (h : c.insert a = .ok c') : c'.assets.Perm (a :: c.assets) := by
  obtain ⟨hnew, hentries⟩ := insert_eq_ok.mp h
  rw [assets, hentries]
  exact (place_perm hnew).map Prod.snd

theorem Own.insert (hc : c.Own) (h : c.insert a = .ok c') : c'.Own := by
  obtain ⟨hnew, hentries⟩ := insert_eq_ok.mp h
  intro e he
  rw [hentries, mem_place hnew] at he
  rcases he with rfl | he
  · rfl
  · exact hc e he

/-! ## Whole catalogs -/

theorem of_foldlM_insert {assets : List α} (hc : c.Own) (h : assets.foldlM insert c = .ok c') :
    c'.Own ∧ c'.assets.Perm (assets ++ c.assets) := by
  induction assets generalizing c with
  | nil =>
    cases h
    exact ⟨hc, .rfl⟩
  | cons a r ih =>
    rw [List.foldlM_cons] at h
    obtain ⟨d, hinsert, hrest⟩ := Except.bind_eq_ok.mp h
    obtain ⟨hown, hperm⟩ := ih (hc.insert hinsert) hrest
    refine ⟨hown, hperm.trans ?_⟩
    -- The new asset goes from the front of the catalog to the front of the list.
    exact ((perm_assets_of_insert hinsert).append_left r).trans List.perm_middle

theorem exists_foldlM_insert {assets : List α}
    (hnew : ∀ a ∈ assets, Asset.identifier a ∉ c.identifiers) (hdistinct : Distinct assets) :
    ∃ c', assets.foldlM insert c = .ok c' := by
  induction assets generalizing c with
  | nil => exact ⟨c, rfl⟩
  | cons a r ih =>
    obtain ⟨ha, hr⟩ := List.pairwise_cons.mp hdistinct
    obtain ⟨d, -, hd⟩ := exists_put_of_none (get?_eq_none.mpr (hnew a List.mem_cons_self))
    have hinsert : c.insert a = .ok d := insert_eq_ok.mpr ⟨hnew a List.mem_cons_self, hd⟩
    obtain ⟨c', hc'⟩ : ∃ c', r.foldlM insert d = .ok c' := by
      refine ih (fun b hb hmem => ?_) hr
      rw [identifiers, hd, mem_map_fst_place] at hmem
      rcases hmem with heq | hmem
      · exact ha b hb heq.symm
      · exact hnew b (List.mem_cons_of_mem _ hb) hmem
    refine ⟨c', ?_⟩
    rw [List.foldlM_cons, hinsert]
    exact hc'

/-- **The catalog of a list is the list in order**, and there is one just when it can be put in
order, that is, when no two identifiers are the same. -/
theorem ofList_eq_ok {assets : List α} : ofList assets = .ok c ↔ c.Own ∧ c.assets.Perm assets := by
  have hempty : (empty : Catalog α).assets = [] := rfl
  constructor
  · intro h
    have hfold := of_foldlM_insert own_empty h
    rwa [hempty, List.append_nil] at hfold
  · rintro ⟨hown, hperm⟩
    obtain ⟨c', hc'⟩ := exists_foldlM_insert (c := empty) (fun _ _ => List.not_mem_nil)
      (hown.distinct hperm)
    obtain ⟨hown', hperm'⟩ := of_foldlM_insert own_empty hc'
    rw [hempty, List.append_nil] at hperm'
    have hassets : c'.assets = c.assets := by
      refine (hperm'.trans hperm.symm).eq_of_pairwise ?_ hown'.pairwise hown.pairwise
      intro a b _ _ hab hba
      exact absurd (lt_trans hab hba) (lt_irrefl _)
    rw [ofList, hc', hown'.eq_of_assets_eq hown hassets]

theorem ofList_eq_ofAscending {assets found : List α}
    (h : Ascending (assets.map Asset.identifier)) (hperm : assets.Perm found) :
    ofList found = .ok (ofAscending assets h) := by
  refine ofList_eq_ok.mpr ⟨own_ofAscending h, ?_⟩
  rwa [assets_ofAscending]

theorem distinct_of_ofList {assets : List α} (h : ofList assets = .ok c) : Distinct assets := by
  obtain ⟨hown, hperm⟩ := ofList_eq_ok.mp h
  exact hown.distinct hperm

theorem exists_ofList_iff {assets : List α} : (∃ c, ofList assets = .ok c) ↔ Distinct assets := by
  constructor
  · rintro ⟨c, hc⟩
    exact distinct_of_ofList hc
  · exact exists_foldlM_insert (c := empty) fun _ _ => List.not_mem_nil

/-- If there is no catalog of a list, it is for the first asset whose identifier was taken. -/
theorem ofList_eq_error {assets : List α} {e : DuplicateIdentifier} (h : ofList assets = .error e) :
    ∃ before a after b, assets = before ++ a :: after ∧ Distinct before ∧ b ∈ before ∧
      Asset.identifier b = Asset.identifier a ∧
      e = ⟨Asset.identifier a, Asset.fileName b, Asset.fileName a⟩ := by
  obtain ⟨before, a, after, c, hassets, hbefore, hinsert⟩ := Except.exists_of_foldlM_eq_error h
  have hc : ofList before = .ok c := hbefore
  obtain ⟨hown, hperm⟩ := ofList_eq_ok.mp hc
  obtain ⟨b, hget, he⟩ := exists_of_insert_eq_error hinsert
  obtain ⟨hb, hsame⟩ := hown.get?_eq_some.mp hget
  exact ⟨before, a, after, b, hassets, distinct_of_ofList hc, hperm.mem_iff.mp hb, hsame, he⟩

/-! ## Rebuilding -/

omit [Asset α]

section Rebuilding

variable {m : Type → Type} [Monad m] [LawfulMonad m]

theorem map_snd_rebuild (f : α → m α) (entries : List (Identifier × α)) :
    (fun rebuilt => rebuilt.1.map Prod.snd) <$> rebuild f entries =
      (entries.map Prod.snd).mapM f := by
  induction entries with
  | nil => simp [rebuild]
  | cons e r ih =>
    obtain ⟨i, a⟩ := e
    simp only [rebuild, List.map_cons, List.mapM_cons, ← ih, map_bind, map_pure, bind_map_left]

/-- The assets are rebuilt as their list would be. -/
theorem assets_mapM (f : α → m α) (c : Catalog α) : assets <$> c.mapM f = c.assets.mapM f := by
  rw [assets, ← map_snd_rebuild]
  simp only [mapM, bind_pure_comp, Functor.map_map]
  rfl

end Rebuilding

theorem result_mapM {ε : Type} (f : α → Traced ε α) (c : Catalog α) :
    (c.mapM f).result = c.mapM fun a => (f a).result := by
  have hrebuild : ∀ entries : List (Identifier × α),
      (rebuild f entries).result = rebuild (fun a => (f a).result) entries := by
    intro entries
    induction entries with
    | nil => rfl
    | cons e r ih =>
      obtain ⟨i, a⟩ := e
      simp only [rebuild, Traced.result_bind, ih, Traced.result_pure]
      rfl
  simp only [mapM, Traced.result_bind, hrebuild, Traced.result_pure]
  rfl

end Catalog

end AssetPack
