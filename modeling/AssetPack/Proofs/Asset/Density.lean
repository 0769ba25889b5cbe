import Mathlib.Data.List.Infix
import Mathlib.Data.List.Sort
import AssetPack.Config.Basic
import AssetPack.Proofs.Lookup
import AssetPack.Proofs.Text.ByteOrder

/-!
# Density tables

A table is tried from the front, and the first suffix that fits is taken. That this is the longest
one, and the density the one assigned last, both rest on the order of the entries: `Ordered` is
what every assignment keeps, and from it alone follow that no suffix stands twice and that the first
fit is the longest (`split_eq_iff`).

Which entries there are is said by `lookup`, which an assignment changes at one suffix only. Two
ordered tables with the same lookups are the same table; so nothing is left in a table of the
order in which it was made, or of what was replaced.
-/

set_option autoImplicit false

namespace AssetPack.DensityTable

open Text.Utf8

variable {s a b c base rest : String} {d : Density} {t t' : DensityTable}
  {entries : List (String × Density)}

/-! ## The order of suffixes -/

/-- The longer suffix first, counted in bytes, and the smaller one first of two that are as long. -/
def Before (a b : String) : Prop :=
  (encode b.toList).length < (encode a.toList).length ∨
    (encode a.toList).length = (encode b.toList).length ∧ encode a.toList < encode b.toList

theorem triedBefore_iff : triedBefore a b = true ↔ Before a b := by
  unfold triedBefore Before
  rw [Bool.or_eq_true, Bool.and_eq_true, decide_eq_true_eq, decide_eq_true_eq, beq_iff_eq,
    lt_iff_bytes, utf8ByteSize_eq, utf8ByteSize_eq]

theorem not_before_self (a : String) : ¬ Before a a := by
  intro h
  rcases h with h | ⟨-, h⟩
  · exact absurd h (Nat.lt_irrefl _)
  · exact absurd h (List.lt_irrefl _)

theorem Before.trans (hab : Before a b) (hbc : Before b c) : Before a c := by
  rcases hab with hab | ⟨hlen, hab⟩
  · rcases hbc with hbc | ⟨hlen', -⟩
    · exact .inl (by omega)
    · exact .inl (by omega)
  · rcases hbc with hbc | ⟨hlen', hbc⟩
    · exact .inl (by omega)
    · exact .inr ⟨hlen.trans hlen', lt_iff_bytes.mp
        (lt_trans (lt_iff_bytes.mpr hab) (lt_iff_bytes.mpr hbc))⟩

theorem Before.total (hne : a ≠ b) (h : ¬ Before a b) : Before b a := by
  unfold Before at h ⊢
  rw [not_or, not_and] at h
  rcases Nat.lt_or_eq_of_le (Nat.le_of_not_lt h.1) with hlt | heq
  · exact .inl hlt
  · refine .inr ⟨heq.symm, ?_⟩
    have hge : ¬ a < b := fun hlt => h.2 heq (lt_iff_bytes.mp hlt)
    exact lt_iff_bytes.mp (lt_of_le_of_ne (not_lt.mp hge) (Ne.symm hne))

theorem Before.byteSize_le (h : Before a b) : b.utf8ByteSize ≤ a.utf8ByteSize := by
  rw [utf8ByteSize_eq, utf8ByteSize_eq]
  rcases h with h | ⟨h, -⟩
  · exact Nat.le_of_lt h
  · exact Nat.le_of_eq h.symm

/-- Entries in the order in which they are tried. -/
def Sorted (entries : List (String × Density)) : Prop :=
  entries.Pairwise fun e f => Before e.1 f.1

theorem Sorted.nodup (h : Sorted entries) : (entries.map Prod.fst).Nodup := by
  refine List.pairwise_map.mpr (h.imp ?_)
  intro e f hef heq
  exact not_before_self f.1 (heq ▸ hef)

theorem Sorted.eq_of_mem_iff {entries' : List (String × Density)} (h : Sorted entries)
    (h' : Sorted entries') (hmem : ∀ e, e ∈ entries ↔ e ∈ entries') : entries = entries' := by
  have hperm : entries.Perm entries' :=
    (List.perm_ext_iff_of_nodup h.nodup.of_map h'.nodup.of_map).mpr hmem
  refine hperm.eq_of_pairwise ?_ h h'
  intro e f _ _ hef hfe
  exact absurd (hef.trans hfe) (not_before_self e.1)

/-! ## One assignment -/

theorem mem_insertEntry {e : String × Density} (he : e ∈ insertEntry s d entries) :
    e = (s, d) ∨ e ∈ entries := by
  induction entries with
  | nil => exact .inl (List.mem_singleton.mp he)
  | cons f r ih =>
    unfold insertEntry at he
    split at he
    · exact (List.mem_cons.mp he).imp_right (List.mem_cons_of_mem _)
    · split at he
      · exact List.mem_cons.mp he
      · rcases List.mem_cons.mp he with rfl | he
        · exact .inr List.mem_cons_self
        · exact (ih he).imp_right (List.mem_cons_of_mem _)

theorem sorted_insertEntry (h : Sorted entries) : Sorted (insertEntry s d entries) := by
  induction entries with
  | nil => exact List.pairwise_singleton _ _
  | cons f r ih =>
    obtain ⟨hfirst, hrest⟩ := List.pairwise_cons.mp h
    unfold insertEntry
    split
    case isTrue heq =>
      subst heq
      exact List.pairwise_cons.mpr ⟨hfirst, hrest⟩
    case isFalse hne =>
      split
      case isTrue hbefore =>
        rw [triedBefore_iff] at hbefore
        refine List.pairwise_cons.mpr ⟨?_, h⟩
        intro g hg
        rcases List.mem_cons.mp hg with rfl | hg
        · exact hbefore
        · exact hbefore.trans (hfirst g hg)
      case isFalse hafter =>
        rw [triedBefore_iff] at hafter
        refine List.pairwise_cons.mpr ⟨?_, ih hrest⟩
        intro g hg
        rcases mem_insertEntry hg with rfl | hg
        · exact Before.total (Ne.symm hne) hafter
        · exact hfirst g hg

/-- An assignment is seen at its own suffix and at no other. -/
theorem lookup_insertEntry (key : String) :
    (insertEntry s d entries).lookup key = if key = s then some d else entries.lookup key := by
  induction entries with
  | nil => rw [insertEntry, lookup_cons_eq]
  | cons f r ih =>
    obtain ⟨suffix, last⟩ := f
    unfold insertEntry
    split
    case isTrue heq =>
      obtain rfl : suffix = s := heq
      rw [lookup_cons_eq, lookup_cons_eq]
      split <;> rfl
    case isFalse hne =>
      have hapart : suffix ≠ s := hne
      split
      · rw [lookup_cons_eq]
      · rw [lookup_cons_eq, lookup_cons_eq, ih]
        by_cases hkey : key = suffix
        · rw [if_pos hkey, if_pos hkey, if_neg (hkey ▸ hapart)]
        · rw [if_neg hkey, if_neg hkey]

theorem mem_assign {dpi : Nat} {e : String × Density} (he : e ∈ (t.assign s dpi).entries) :
    e = (s, ⟨dpi⟩) ∨ e ∈ t.entries := by
  unfold DensityTable.assign at he
  split at he
  · exact .inr he
  · exact mem_insertEntry he

/-- What holds of every table that is made. -/
structure Ordered (t : DensityTable) : Prop where
  sorted : Sorted t.entries
  nonempty : ∀ e ∈ t.entries, e.1 ≠ ""

theorem Ordered.assign (h : t.Ordered) (s : String) (dpi : Nat) : (t.assign s dpi).Ordered := by
  unfold DensityTable.assign
  split
  · exact h
  case isFalse hs =>
    refine ⟨sorted_insertEntry h.sorted, ?_⟩
    intro e he
    rcases mem_insertEntry he with rfl | he
    · exact hs
    · exact h.nonempty e he

theorem lookup_assign (t : DensityTable) (s : String) (dpi : Nat) {key : String} (hkey : key ≠ "") :
    (t.assign s dpi).entries.lookup key = if key = s then some ⟨dpi⟩ else t.entries.lookup key := by
  unfold DensityTable.assign
  split
  case isTrue hs => rw [if_neg (hs ▸ hkey)]
  case isFalse => exact lookup_insertEntry key

/-! ## All assignments -/

theorem Ordered.assignAll (h : t.Ordered) (pairs : List (String × Nat)) :
    (t.assignAll pairs).Ordered := by
  induction pairs generalizing t with
  | nil => exact h
  | cons p rest ih => exact ih (h.assign p.1 p.2)

/-- Every entry was there before, or was assigned. -/
theorem mem_assignAll {pairs : List (String × Nat)} {e : String × Density}
    (he : e ∈ (t.assignAll pairs).entries) :
    e ∈ t.entries ∨ ∃ p ∈ pairs, e = (p.1, ⟨p.2⟩) := by
  induction pairs generalizing t with
  | nil => exact .inl he
  | cons p rest ih =>
    rcases ih (t := t.assign p.1 p.2) he with he | ⟨q, hq, rfl⟩
    · exact (mem_assign he).symm.imp_right fun heq => ⟨p, List.mem_cons_self, heq⟩
    · exact .inr ⟨q, List.mem_cons_of_mem _ hq, rfl⟩

theorem assignAll_append (t : DensityTable) (pairs more : List (String × Nat)) :
    t.assignAll (pairs ++ more) = (t.assignAll pairs).assignAll more :=
  List.foldl_append

theorem lookup_assignAll (t : DensityTable) (pairs : List (String × Nat)) {key : String}
    (hkey : key ≠ "") : (t.assignAll pairs).entries.lookup key =
      ((pairs.reverse.lookup key).map Density.mk).or (t.entries.lookup key) := by
  induction pairs generalizing t with
  | nil => rfl
  | cons p rest ih =>
    show ((t.assign p.1 p.2).assignAll rest).entries.lookup key = _
    rw [ih, lookup_assign _ _ _ hkey, List.reverse_cons, List.lookup_append]
    cases rest.reverse.lookup key with
    | some dpi => rfl
    | none =>
      rw [lookup_cons_eq]
      split <;> rfl

/-- The table of some pairs, with other pairs merged in any number of times. -/
def made (pairs : List (String × Nat)) (overrides : List (List (String × Nat))) : DensityTable :=
  overrides.foldl assignAll (ofPairs pairs)

/-- Merging in is assigning once more. -/
theorem made_eq_assignAll (pairs : List (String × Nat)) (overrides : List (List (String × Nat))) :
    made pairs overrides = assignAll ⟨[]⟩ (pairs ++ overrides.flatten) := by
  unfold made ofPairs
  rw [assignAll_append]
  generalize assignAll ⟨[]⟩ pairs = t
  induction overrides generalizing t with
  | nil => rfl
  | cons more rest ih => rw [List.foldl_cons, ih, List.flatten_cons, assignAll_append]

theorem ordered_made (pairs : List (String × Nat)) (overrides : List (List (String × Nat))) :
    (made pairs overrides).Ordered := by
  rw [made_eq_assignAll]
  exact Ordered.assignAll ⟨List.Pairwise.nil, fun _ he => nomatch he⟩ _

/-- The density that a suffix was given last. -/
def LastAssigned (assignments : List (String × Nat)) (s : String) (dpi : Nat) : Prop :=
  ∃ before after, assignments = before ++ (s, dpi) :: after ∧ ∀ p ∈ after, p.1 ≠ s

theorem lookup_reverse_eq_some {assignments : List (String × Nat)} {dpi : Nat} :
    assignments.reverse.lookup s = some dpi ↔ LastAssigned assignments s dpi := by
  rw [List.lookup_eq_some_iff]
  constructor
  · rintro ⟨later, earlier, heq, hlater⟩
    refine ⟨earlier.reverse, later.reverse, ?_, ?_⟩
    · have hback := congrArg List.reverse heq
      simpa using hback
    · intro p hp hs
      have hne := hlater p (List.mem_reverse.mp hp)
      simp [hs] at hne
  · rintro ⟨before, after, rfl, hafter⟩
    refine ⟨after.reverse, before.reverse, by simp, ?_⟩
    intro p hp
    have hne := hafter p (List.mem_reverse.mp hp)
    simpa using Ne.symm hne

theorem mem_made {pairs : List (String × Nat)} {overrides : List (List (String × Nat))} :
    (s, d) ∈ (made pairs overrides).entries ↔
      s ≠ "" ∧ LastAssigned (pairs ++ overrides.flatten) s d.dpi := by
  have hordered := ordered_made pairs overrides
  rw [← lookup_eq_some_iff_mem hordered.sorted.nodup]
  by_cases hs : s = ""
  · constructor
    · intro h
      exact absurd hs (hordered.nonempty _ (mem_of_lookup_eq_some h))
    · intro h
      exact absurd hs h.1
  · rw [made_eq_assignAll, lookup_assignAll _ _ hs, ← lookup_reverse_eq_some]
    cases (pairs ++ overrides.flatten).reverse.lookup s with
    | none => simp
    | some dpi =>
      obtain ⟨last⟩ := d
      simp [hs]

/-! ## Splitting -/

/-- What is left of a base name, and its density: what stands before the longest suffix that ends
it, and that suffix's density; all of it, and none, if no suffix ends it. -/
inductive SplitsOff (t : DensityTable) (base : String) : String → Density → Prop
  | suffix {rest s : String} {d : Density} (mem : (s, d) ∈ t.entries) (ends : rest ++ s = base)
      (longest : ∀ e ∈ t.entries, e.1.toList <:+ base.toList → e.1.utf8ByteSize ≤ s.utf8ByteSize) :
      SplitsOff t base rest d
  | whole (none : ∀ e ∈ t.entries, ¬ e.1.toList <:+ base.toList) :
      SplitsOff t base base .unspecified

/-- What an entry makes of a base name, if it fits. -/
def fit? (base : String) (e : String × Density) : Option (String × Density) :=
  (e.1.toList.isSuffixOf? base.toList).map fun rest => (String.ofList rest, e.2)

theorem split_eq (t : DensityTable) (base : String) :
    t.split base = (t.entries.findSome? (fit? base)).getD (base, .unspecified) :=
  rfl

theorem fit?_eq_some_iff {e : String × Density} {found : String × Density} :
    fit? base e = some found ↔ found.1 ++ e.1 = base ∧ e.2 = found.2 := by
  unfold fit?
  rw [Option.map_eq_some_iff]
  simp only [List.isSuffixOf?_eq_some_iff_append_eq]
  constructor
  · rintro ⟨rest, hrest, rfl⟩
    refine ⟨String.toList_inj.mp ?_, rfl⟩
    rw [String.toList_append, String.toList_ofList, hrest]
  · rintro ⟨hbase, hd⟩
    refine ⟨found.1.toList, ?_, ?_⟩
    · rw [← String.toList_append, hbase]
    · rw [String.ofList_toList, hd]

theorem fit?_eq_none_iff {e : String × Density} :
    fit? base e = none ↔ ¬ e.1.toList <:+ base.toList := by
  rw [← not_iff_not, not_not, ← ne_eq, Option.ne_none_iff_exists']
  constructor
  · rintro ⟨found, hfound⟩
    obtain ⟨hbase, -⟩ := fit?_eq_some_iff.mp hfound
    exact ⟨found.1.toList, by rw [← String.toList_append, hbase]⟩
  · rintro ⟨rest, hrest⟩
    refine ⟨(String.ofList rest, e.2), fit?_eq_some_iff.mpr ⟨String.toList_inj.mp ?_, rfl⟩⟩
    rw [String.toList_append, String.toList_ofList, hrest]

theorem splitsOff_split (h : t.Ordered) (base : String) :
    SplitsOff t base (t.split base).1 (t.split base).2 := by
  rw [split_eq]
  cases hfit : t.entries.findSome? (fit? base) with
  | none =>
    refine .whole ?_
    intro e he
    exact fit?_eq_none_iff.mp (List.findSome?_eq_none_iff.mp hfit e he)
  | some found =>
    obtain ⟨before, e, after, heq, he, hbefore⟩ := List.findSome?_eq_some_iff.mp hfit
    obtain ⟨hends, hd⟩ := fit?_eq_some_iff.mp he
    refine .suffix (s := e.1) ?_ hends ?_
    · show (e.1, found.2) ∈ t.entries
      rw [← hd, heq]
      exact List.mem_append_right _ List.mem_cons_self
    · intro e' he' hends'
      -- Those in front do not fit, and those behind are no longer.
      rw [heq, List.mem_append, List.mem_cons] at he'
      rcases he' with he' | rfl | he'
      · exact absurd hends' (fit?_eq_none_iff.mp (hbefore e' he'))
      · exact Nat.le_refl _
      · have hsorted := h.sorted
        rw [heq] at hsorted
        have hafter := (List.pairwise_cons.mp (List.pairwise_append.mp hsorted).2.1).1 e' he'
        exact hafter.byteSize_le

/-- Of two ends of one text, both as long as can be, each is the other. -/
theorem eq_of_ends {s' base : String} (hs : s.toList <:+ base.toList)
    (hs' : s'.toList <:+ base.toList) (hsize : s.utf8ByteSize = s'.utf8ByteSize) : s = s' := by
  have hcut : ∀ {x y : String}, x.toList <:+ y.toList → x.utf8ByteSize = y.utf8ByteSize →
      x = y := by
    intro x y hxy hsame
    obtain ⟨front, hfront⟩ := hxy
    rw [utf8ByteSize_eq, utf8ByteSize_eq, ← hfront, encode_append, List.length_append] at hsame
    have hnil : encode front = [] := List.length_eq_zero_iff.mp (by omega)
    have hempty : front = [] := encode_injective hnil
    apply String.toList_inj.mp
    rw [← hfront, hempty, List.nil_append]
  rcases List.suffix_or_suffix_of_suffix hs hs' with h | h
  · exact hcut h hsize
  · exact (hcut h hsize.symm).symm

theorem SplitsOff.unique {rest' : String} {d' : Density} (ht : t.Ordered)
    (h : SplitsOff t base rest d) (h' : SplitsOff t base rest' d') : rest' = rest ∧ d' = d := by
  have hends : ∀ {r e : String}, r ++ e = base → e.toList <:+ base.toList := by
    intro r e heq
    exact ⟨r.toList, by rw [← heq, String.toList_append]⟩
  cases h with
  | suffix mem ends longest =>
    cases h' with
    | suffix mem' ends' longest' =>
      have hle := longest _ mem' (hends ends')
      have hge := longest' _ mem (hends ends)
      obtain rfl := eq_of_ends (hends ends) (hends ends') (Nat.le_antisymm hge hle)
      constructor
      · apply String.toList_inj.mp
        have hsame := congrArg String.toList (ends'.trans ends.symm)
        simpa using hsame
      · have hlookup := (lookup_eq_some_iff_mem ht.sorted.nodup).mpr mem
        rw [(lookup_eq_some_iff_mem ht.sorted.nodup).mpr mem'] at hlookup
        exact Option.some.inj hlookup
    | whole none => exact absurd (hends ends) (none _ mem)
  | whole none =>
    cases h' with
    | suffix mem' ends' _ => exact absurd (hends ends') (none _ mem')
    | whole => exact ⟨rfl, rfl⟩

theorem split_eq_iff (h : t.Ordered) : t.split base = (rest, d) ↔ SplitsOff t base rest d := by
  have hsplit := splitsOff_split h base
  constructor
  · intro heq
    rwa [heq] at hsplit
  · intro hoff
    obtain ⟨hrest, hd⟩ := hoff.unique h hsplit
    exact Prod.ext hrest hd

/-! ## The theorem -/

/-- **A table is what was assigned last, tried longest first.** Its entries descend in their
lengths, and ascend in their bytes where lengths agree; no suffix is empty or stands twice; and a
suffix has the density that it was given last. So tables are the same if these are. What is split
off a base name is the longest suffix that ends it. The settings of a directory make such a
table. -/
theorem holds_last_assigned_longest_first (pairs : List (String × Nat))
    (overrides : List (List (String × Nat))) :
    ((made pairs overrides).entries.Pairwise fun e f => Before e.1 f.1) ∧
    ((made pairs overrides).entries.map Prod.fst).Nodup ∧
    (∀ e ∈ (made pairs overrides).entries, e.1 ≠ "") ∧
    (∀ s d, (s, d) ∈ (made pairs overrides).entries ↔
      s ≠ "" ∧ LastAssigned (pairs ++ overrides.flatten) s d.dpi) ∧
    (∀ pairs' overrides', (∀ s dpi, s ≠ "" →
        (LastAssigned (pairs' ++ overrides'.flatten) s dpi ↔
          LastAssigned (pairs ++ overrides.flatten) s dpi)) →
      made pairs' overrides' = made pairs overrides) ∧
    (∀ base rest d, (made pairs overrides).split base = (rest, d) ↔
      SplitsOff (made pairs overrides) base rest d) ∧
    ∀ config : Config, ∃ builtin, config.densityTable = made builtin [config.densities] := by
  have hordered := ordered_made pairs overrides
  refine ⟨hordered.sorted, hordered.sorted.nodup, hordered.nonempty, fun s d => mem_made, ?_,
    fun base rest d => split_eq_iff hordered, fun config => ⟨_, rfl⟩⟩
  intro pairs' overrides' hsame
  have hentries : (made pairs' overrides').entries = (made pairs overrides).entries := by
    apply (ordered_made pairs' overrides').sorted.eq_of_mem_iff hordered.sorted
    rintro ⟨s, d⟩
    rw [mem_made, mem_made]
    exact and_congr_right fun hs => hsame s d.dpi hs
  cases hmade : made pairs' overrides'
  cases hmade' : made pairs overrides
  rw [hmade, hmade'] at hentries
  exact congrArg DensityTable.mk hentries

end AssetPack.DensityTable
