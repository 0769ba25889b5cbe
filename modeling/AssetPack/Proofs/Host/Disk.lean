import AssetPack.Host.Files
import AssetPack.Proofs.Job
import AssetPack.Proofs.Lookup
import Mathlib.Data.List.Sort
import Mathlib.Data.String.Basic

/-!
# The order in which a disk keeps its entries

Two disks are the same but for the order of their entries (`Disk.Shuffled`). All that a disk is
asked is what stands at a place and what names there are in a directory, and what it is told is to
put something at a place. The first and the last do not depend on the order; the names come in
another order, but are sorted before they are shown. So every operation gives the same answer for
both disks, and leaves disks that are again the same but for the order.
-/

set_option autoImplicit false

namespace AssetPack.Host.Disk

/-- The disks have the same entries, one for each place, in whatever order. -/
structure Shuffled (d d' : Disk) : Prop where
  here : d'.here = d.here
  entries : d'.entries.Perm d.entries
  distinct : (d.entries.map Prod.fst).Nodup

namespace Shuffled

variable {d d' : Disk}

/-! ## Looking -/

theorem entry? (h : Shuffled d d') (place : Place) : d'.entry? place = d.entry? place := by
  rw [Disk.entry?, Disk.entry?, lookup_eq_of_perm h.entries h.distinct]

theorem isDirAt (h : Shuffled d d') (place : Place) : d'.isDirAt place = d.isDirAt place := by
  rw [Disk.isDirAt, Disk.isDirAt, h.entry?]

theorem namesAt (h : Shuffled d d') (place : Place) :
    (d'.namesAt place).Perm (d.namesAt place) :=
  h.entries.filterMap _

theorem walk (h : Shuffled d d') (follow : Bool) (links : Nat) (place : Place)
    (steps : List String) : d'.walk follow links place steps = d.walk follow links place steps := by
  fun_induction Disk.walk d follow links place steps <;> rw [Disk.walk] <;>
    grind [h.isDirAt, h.entry?]

theorem resolve (h : Shuffled d d') (follow : Bool) (p : Path) :
    d'.resolve follow p = d.resolve follow p := by
  simp only [Disk.resolve, h.here, h.walk]

theorem find (h : Shuffled d d') (follow : Bool) (p : Path) :
    d'.find follow p = d.find follow p := by
  simp only [Disk.find, h.resolve, h.entry?]

theorem find? (h : Shuffled d d') (p : Path) : d'.find? p = d.find? p := by
  rw [Disk.find?, Disk.find?, h.find]

theorem isDir (h : Shuffled d d') (p : Path) : d'.isDir p = d.isDir p := by
  rw [Disk.isDir, Disk.isDir, h.find?]

theorem slot? (h : Shuffled d d') (p : Path) : d'.slot? p = d.slot? p := by
  simp only [Disk.slot?, h.here, h.walk]

theorem read (h : Shuffled d d') (p : Path) : d'.read p = d.read p := by
  simp only [Disk.read, h.find]

/-- A listing is sorted, so it does not show the order of the entries. -/
theorem list (h : Shuffled d d') (wanted : Option Entry → Bool) (p : Path) :
    d'.list wanted p = d.list wanted p := by
  have hsorted : ∀ names : List String,
      (names.mergeSort fun a b => decide (a ≤ b)).Pairwise (· ≤ ·) := by
    intro names
    have hpairwise : (names.mergeSort fun a b => decide (a ≤ b)).Pairwise
        fun a b => decide (a ≤ b) = true :=
      List.pairwise_mergeSort (fun a b c => by simpa using le_trans)
        (fun a b => by simpa using le_total a b) names
    exact hpairwise.imp of_decide_eq_true
  have hnames : ∀ place (leads : String → Bool),
      ((d'.namesAt place).filter leads).mergeSort (fun a b => decide (a ≤ b)) =
        ((d.namesAt place).filter leads).mergeSort fun a b => decide (a ≤ b) := by
    intro place leads
    refine List.Perm.eq_of_pairwise' (hsorted _) (hsorted _) ?_
    exact ((List.mergeSort_perm _ _).trans ((h.namesAt place).filter leads)).trans
      (List.mergeSort_perm _ _).symm
  have hentry : d'.entry? = d.entry? := funext h.entry?
  simp only [Disk.list, h.find, h.walk, hentry, hnames]

/-! ## Putting -/

theorem set (h : Shuffled d d') (place : Place) (e : Entry) :
    Shuffled (d.set place e) (d'.set place e) where
  here := h.here
  entries := (h.entries.filter _).cons _
  distinct := by
    rw [Disk.set, List.map_cons, List.nodup_cons]
    constructor
    · intro hmem
      obtain ⟨f, hf, hplace⟩ := List.mem_map.mp hmem
      exact of_decide_eq_true (List.mem_filter.mp hf).2 hplace
    · exact h.distinct.sublist (List.filter_sublist.map _)

/-- Both attempts have failed alike, or have put the same at the same place. -/
def PutAlike (d d' : Disk) (x x' : Except SystemError Disk) : Prop :=
  ∃ answer : Except SystemError (Place × Entry),
    x = (answer.map fun (place, e) => d.set place e) ∧
      x' = answer.map fun (place, e) => d'.set place e

theorem putAlike_error (e : SystemError) : PutAlike d d' (.error e) (.error e) :=
  ⟨.error e, rfl, rfl⟩

theorem putAlike_set (place : Place) (e : Entry) :
    PutAlike d d' (.ok (d.set place e)) (.ok (d'.set place e)) :=
  ⟨.ok (place, e), rfl, rfl⟩

theorem makeDir (h : Shuffled d d') (p : Path) : PutAlike d d' (d.makeDir p) (d'.makeDir p) := by
  unfold Disk.makeDir
  rw [h.slot?]
  cases d.slot? p with
  | error e => exact putAlike_error e
  | ok slot? =>
    cases slot? with
    | none => exact putAlike_error _
    | some slot =>
      simp only [Except.ok_bind, h.entry?]
      split_ifs
      · exact putAlike_error _
      · exact putAlike_error _
      · exact putAlike_error _
      · exact putAlike_set _ _

theorem replace (h : Shuffled d d') (p : Path) (bytes : List UInt8) :
    PutAlike d d' (d.replace p bytes) (d'.replace p bytes) := by
  unfold Disk.replace
  split_ifs
  · exact putAlike_error _
  · rw [h.slot?]
    cases d.slot? p with
    | error e => exact putAlike_error e
    | ok slot? =>
      cases slot? with
      | none => exact putAlike_error _
      | some slot =>
        simp only [Except.ok_bind, h.isDirAt]
        split_ifs
        · exact putAlike_error _
        · exact putAlike_error _
        · exact putAlike_error _
        · exact putAlike_error _
        · exact putAlike_set _ _

/-- Both changes have the same answer, and leave disks that are the same but for the order. -/
def LeftAlike {ε : Type} (r r' : Except ε Unit × Disk) : Prop := r'.1 = r.1 ∧ Shuffled r.2 r'.2

theorem settle (h : Shuffled d d') (p : Path) {x x' : Except SystemError Disk}
    (hput : PutAlike d d' x x') : LeftAlike (d.settle p x) (d'.settle p x') := by
  obtain ⟨answer, rfl, rfl⟩ := hput
  cases answer with
  | error e => exact ⟨by simp only [Disk.settle, Except.map, h.isDir], h⟩
  | ok put => exact ⟨rfl, h.set put.1 put.2⟩

theorem makeLine (h : Shuffled d d') (line : List Path) :
    LeftAlike (d.makeLine line) (d'.makeLine line) := by
  induction line with
  | nil => exact ⟨rfl, h⟩
  | cons p line ih =>
    rw [Disk.makeLine, Disk.makeLine]
    split_ifs
    · exact ⟨rfl, h⟩
    · obtain ⟨answer, hmade, hmade'⟩ := h.makeDir p
      rw [hmade, hmade']
      cases answer with
      | ok put => exact h.settle p ⟨.ok put, rfl, rfl⟩
      | error e =>
        by_cases hmissing : e = .noSuchFile
        · -- The directory that is to hold this one is made first.
          subst hmissing
          generalize d.makeLine line = made at ih ⊢
          generalize d'.makeLine line = made' at ih ⊢
          obtain ⟨answer, left⟩ := made
          obtain ⟨answer', left'⟩ := made'
          obtain ⟨(rfl : answer' = answer), hleft⟩ := ih
          cases answer' with
          | error e => exact ⟨rfl, hleft⟩
          | ok => exact hleft.settle p (hleft.makeDir p)
        · cases e <;> first | exact absurd rfl hmissing | exact h.settle p ⟨.error _, rfl, rfl⟩

theorem makeDirs (h : Shuffled d d') (p : Path) : LeftAlike (d.makeDirs p) (d'.makeDirs p) :=
  h.makeLine _

theorem write (h : Shuffled d d') (p : Path) (bytes : List UInt8) :
    LeftAlike (d.write p bytes) (d'.write p bytes) := by
  have hdirs := h.makeDirs (holder p)
  unfold Disk.write
  generalize d.makeDirs (holder p) = made at hdirs ⊢
  generalize d'.makeDirs (holder p) = made' at hdirs ⊢
  obtain ⟨answer, left⟩ := made
  obtain ⟨answer', left'⟩ := made'
  obtain ⟨(rfl : answer' = answer), hleft⟩ := hdirs
  cases answer' with
  | error e => exact ⟨rfl, hleft⟩
  | ok =>
    obtain ⟨replaced, hreplaced, hreplaced'⟩ := hleft.replace p bytes
    simp only [hreplaced, hreplaced']
    cases replaced with
    | error e => exact ⟨rfl, hleft⟩
    | ok put => exact ⟨rfl, hleft.set put.1 put.2⟩

end Shuffled

end AssetPack.Host.Disk
