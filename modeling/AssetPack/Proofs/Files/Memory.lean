import AssetPack.Files.Memory
import AssetPack.Proofs.Files.Path

/-!
# What a change in memory leaves alone

A write puts one file into place, a made directory is one more directory; everything else is as it
was. `Keeps kept m m'` says that much of any number of changes: the files at the paths that `kept`
chooses are the same, in the same order, no directory is gone, and the same paths fail. It is
closed under composition (`Keeps.trans`) and under choosing less (`Keeps.mono`), and what is read or
listed at chosen paths alone is then the same before and after.

The order of the files is kept as well because a listing shows it.
-/

set_option autoImplicit false

open AssetPack.Path

namespace AssetPack.Memory

/-! ## One file put into place -/

/-- The files at other places, in their order. -/
theorem filter_place (kept : Path → Bool) {path : Path}
    (h : ∀ q : Path, q.same path = true → kept q = false) (bytes : List UInt8)
    (files : List (Path × List UInt8)) :
    (place path bytes files).filter (fun f => kept f.1) = files.filter fun f => kept f.1 := by
  induction files with
  | nil => simp [place, h path (same_self path)]
  | cons f r ih =>
    rw [place]
    split
    case isTrue hf => simp [h f.1 hf]
    case isFalse hf =>
      split
      · simp [h path (same_self path)]
      · simp only [List.filter_cons, ih]

/-- No path is gone. -/
theorem fst_mem_place (path : Path) (bytes : List UInt8) {files : List (Path × List UInt8)}
    {f : Path × List UInt8} (hf : f ∈ files) : ∃ g ∈ place path bytes files, g.1 = f.1 := by
  induction files with
  | nil => cases hf
  | cons f' r ih =>
    rw [place]
    split
    · rcases List.mem_cons.mp hf with rfl | hf
      · exact ⟨_, List.mem_cons_self, rfl⟩
      · exact ⟨f, List.mem_cons_of_mem _ hf, rfl⟩
    · split
      · exact ⟨f, List.mem_cons_of_mem _ hf, rfl⟩
      · rcases List.mem_cons.mp hf with rfl | hf
        · exact ⟨f, List.mem_cons_self, rfl⟩
        · obtain ⟨g, hg, hgf⟩ := ih hf
          exact ⟨g, List.mem_cons_of_mem _ hg, hgf⟩

theorem find?_place (path : Path) (bytes : List UInt8) (files : List (Path × List UInt8)) :
    ((place path bytes files).find? fun f => f.1.same path).map Prod.snd = some bytes := by
  induction files with
  | nil => simp [place, same_self]
  | cons f r ih =>
    rw [place]
    split
    case isTrue hf => simp [hf]
    case isFalse hf =>
      split
      · simp [same_self]
      · rw [List.find?_cons, eq_false_of_ne_true hf]
        exact ih

theorem find?_congr (m : Memory) {q q' : Path} (h : q.same q' = true) : m.find? q = m.find? q' := by
  simp only [find?, same_congr h]

theorem find?_add (m : Memory) {path q : Path} (h : q.same path = true) (bytes : List UInt8) :
    (m.add path bytes).find? q = some bytes :=
  (find?_congr _ h).trans (find?_place path bytes m.files)

/-! ## Directories and failures -/

theorem isDir_iff {m : Memory} {p : Path} :
    m.isDir p = true ↔ ∃ d ∈ m.dirComponents, p.components <+: d := by
  simp [isDir]

theorem mem_dirComponents {m : Memory} {d : List Component} :
    d ∈ m.dirComponents ↔
      (∃ p ∈ m.dirs, p.components = d) ∨ ∃ f ∈ m.files, f.1.parentComponents? = some d := by
  simp [dirComponents]

/-- The name that a path has in a directory. -/
def nameIn? (dir p : Path) : Option String :=
  if p.parentComponents? = some dir.components then p.fileName? else none

theorem nameIn?_eq_some {dir p : Path} {name : String} : nameIn? dir p = some name ↔
    p.parentComponents? = some dir.components ∧ p.fileName? = some name := by
  simp [nameIn?]

theorem nameIn?_of_same {dir p : Path} {name : String} (hname : IsPlain name)
    (h : p.same (dir.push name) = true) : nameIn? dir p = some name := by
  rw [nameIn?_eq_some, parentComponents?_of_same h, fileName?_of_same h,
    parentComponents?_push dir hname, fileName?_push dir hname]
  exact ⟨rfl, rfl⟩

theorem fileNames_eq (m : Memory) (dir : Path) :
    m.fileNames dir = m.files.filterMap fun f => nameIn? dir f.1 :=
  rfl

theorem isPlain_of_mem_fileNames {m : Memory} {dir : Path} {name : String}
    (h : name ∈ m.fileNames dir) : IsPlain name := by
  obtain ⟨f, -, hf⟩ := List.mem_filterMap.mp (fileNames_eq m dir ▸ h)
  exact isPlain_of_fileName? (nameIn?_eq_some.mp hf).2

variable {α : Type} {m m' : Memory}

theorem guarded_congr (h : m'.faults = m.faults) (path : Path) (answer : Except FileError α) :
    m'.guarded path answer = m.guarded path answer := by
  rw [guarded, guarded, h]

/-- A path that does not fail once does not fail. -/
theorem guarded_of_ok {path : Path} {answer : Except FileError α} {a : α}
    (h : m.guarded path answer = .ok a) {β : Type} (other : Except FileError β) :
    m.guarded path other = other := by
  unfold guarded at h ⊢
  split at h
  · cases h
  · rfl

theorem eq_of_listFiles {dir : Path} {names : List String}
    (h : FileSystem.listFiles m dir = .ok names) : names = m.fileNames dir := by
  have hanswer := (guarded_of_ok h _).symm.trans h
  split at hanswer
  · exact (Except.ok.inj hanswer).symm
  · cases hanswer

theorem guardedChange_eq_ok {path : Path} {changed : Memory} :
    m.guardedChange path changed = (.ok (), m') ↔
      m.guarded path (.ok ()) = .ok () ∧ changed = m' := by
  rw [guardedChange]
  split
  case h_1 e he => simp [he]
  case h_2 he => simp [he]

/-- A change that is refused changes nothing. -/
theorem eq_of_write_error {path : Path} {bytes : List UInt8} {e : FileError}
    (h : FileSystem.write m path bytes = (.error e, m')) : m' = m := by
  change m.guardedChange path _ = _ at h
  unfold guardedChange at h
  split at h <;> cases h
  rfl

/-- What was written is there, -/
theorem find?_write {path : Path} {bytes : List UInt8}
    (h : FileSystem.write m path bytes = (.ok (), m')) : m'.find? path = some bytes := by
  obtain ⟨-, rfl⟩ := guardedChange_eq_ok.mp h
  exact find?_add m (same_self path) bytes

/-- and its path does not fail afterwards. -/
theorem guarded_of_write {path : Path} {bytes : List UInt8}
    (h : FileSystem.write m path bytes = (.ok (), m')) (answer : Except FileError α) :
    m'.guarded path answer = answer := by
  obtain ⟨hguard, rfl⟩ := guardedChange_eq_ok.mp h
  exact guarded_of_ok hguard answer

/-- A directory that was made is one of those that were made. -/
theorem mem_dirs_of_createDirs {path : Path} (h : FileSystem.createDirs m path = (.ok (), m')) :
    path ∈ m'.dirs := by
  obtain ⟨-, rfl⟩ := guardedChange_eq_ok.mp h
  exact List.mem_append_right _ (List.mem_singleton_self _)

/-! ## Keeping -/

/-- From one state to the other, the files at the chosen paths are kept, in their order, together
with all directories and failures. -/
structure Keeps (kept : Path → Bool) (m m' : Memory) : Prop where
  files : m'.files.filter (fun f => kept f.1) = m.files.filter fun f => kept f.1
  dirs : m.dirComponents ⊆ m'.dirComponents
  faults : m'.faults = m.faults

namespace Keeps

variable {kept kept' : Path → Bool} {m'' : Memory}

theorem refl (kept : Path → Bool) (m : Memory) : Keeps kept m m := ⟨rfl, List.Subset.refl _, rfl⟩

theorem trans (h : Keeps kept m m') (h' : Keeps kept m' m'') : Keeps kept m m'' where
  files := h'.files.trans h.files
  dirs := List.Subset.trans h.dirs h'.dirs
  faults := h'.faults.trans h.faults

/-- Choosing less keeps what is still chosen. -/
theorem mono (h : Keeps kept m m') (himp : ∀ p, kept' p = true → kept p = true) :
    Keeps kept' m m' where
  files := by
    have hfilter : ∀ files : List (Path × List UInt8), (files.filter fun f => kept f.1).filter
        (fun f => kept' f.1) = files.filter fun f => kept' f.1 := by
      intro files
      rw [List.filter_filter]
      congr 1
      funext f
      cases hf : kept' f.1 with
      | false => rfl
      | true => simp [himp f.1 hf]
    rw [← hfilter m'.files, h.files, hfilter]
  dirs := h.dirs
  faults := h.faults

/-! ### Changes -/

theorem add (m : Memory) (path : Path) (bytes : List UInt8) :
    Keeps (fun q => !q.same path) m (m.add path bytes) where
  files := filter_place (fun q => !q.same path) (fun q hq => by simp [hq]) bytes m.files
  dirs := by
    intro d hd
    rw [mem_dirComponents] at hd ⊢
    refine hd.imp_right ?_
    rintro ⟨f, hf, hparent⟩
    obtain ⟨g, hg, hgf⟩ := fst_mem_place path bytes hf
    exact ⟨g, hg, hgf ▸ hparent⟩
  faults := rfl

/-- A write keeps all other files. -/
theorem write {path : Path} {bytes : List UInt8}
    (h : FileSystem.write m path bytes = (.ok (), m')) : Keeps (fun q => !q.same path) m m' := by
  obtain ⟨-, rfl⟩ := guardedChange_eq_ok.mp h
  exact ⟨(add m path bytes).files, (add m path bytes).dirs, rfl⟩

/-- Making a directory keeps all files. -/
theorem createDirs {path : Path} (h : FileSystem.createDirs m path = (.ok (), m')) :
    Keeps (fun _ => true) m m' := by
  obtain ⟨-, rfl⟩ := guardedChange_eq_ok.mp h
  refine ⟨rfl, fun d hd => ?_, rfl⟩
  rw [mem_dirComponents] at hd ⊢
  exact hd.imp_left fun ⟨p, hp, hd⟩ => ⟨p, List.mem_append_left _ hp, hd⟩

/-! ### What is seen of it -/

theorem isDir (h : Keeps kept m m') {p : Path} (hp : m.isDir p = true) : m'.isDir p = true := by
  obtain ⟨d, hd, hprefix⟩ := isDir_iff.mp hp
  exact isDir_iff.mpr ⟨d, h.dirs hd, hprefix⟩

theorem find? (h : Keeps kept m m') {q : Path} (hq : ∀ p : Path, p.same q = true → kept p = true) :
    m'.find? q = m.find? q := by
  have hfilter : ∀ files : List (Path × List UInt8),
      (files.filter fun f => kept f.1).find? (fun f => f.1.same q) =
        files.find? fun f => f.1.same q := by
    intro files
    rw [List.find?_filter]
    congr 1
    funext f
    cases hf : f.1.same q with
    | false => simp
    | true => simp [hq f.1 hf]
  rw [Memory.find?, Memory.find?, ← hfilter m'.files, h.files, hfilter]

theorem read (h : Keeps kept m m') {q : Path} (hq : ∀ p : Path, p.same q = true → kept p = true) :
    FileSystem.read m' q = FileSystem.read m q := by
  change m'.guarded q _ = m.guarded q _
  rw [guarded_congr h.faults, h.find? hq]

/-- Of a listing, the names that are wanted are the same if their files are kept. -/
theorem fileNames (h : Keeps kept m m') {dir : Path} {wanted : String → Bool}
    (hwanted : ∀ p name, nameIn? dir p = some name → wanted name = true → kept p = true) :
    (m'.fileNames dir).filter wanted = (m.fileNames dir).filter wanted := by
  have hfilter : ∀ files : List (Path × List UInt8),
      ((files.filter fun f => kept f.1).filterMap fun f => nameIn? dir f.1).filter wanted =
        (files.filterMap fun f => nameIn? dir f.1).filter wanted := by
    intro files
    rw [List.filterMap_filter, List.filter_filterMap, List.filter_filterMap]
    congr 1
    funext f
    cases hkept : kept f.1 with
    | true => rfl
    | false =>
      cases hname : nameIn? dir f.1 with
      | none => rfl
      | some name =>
        have hunwanted : wanted name = false := eq_false_of_ne_true fun hw => by
          simp [hwanted f.1 name hname hw] at hkept
        simp [Option.filter, hunwanted]
  rw [fileNames_eq, fileNames_eq, ← hfilter m'.files, h.files, hfilter]

/-- So is the whole listing, as far as it is wanted. -/
theorem listFiles (h : Keeps kept m m') {dir : Path} (hdir : m.isDir dir = true)
    {wanted : String → Bool}
    (hwanted : ∀ p name, nameIn? dir p = some name → wanted name = true → kept p = true) :
    (FileSystem.listFiles m' dir).map (List.filter wanted) =
      (FileSystem.listFiles m dir).map (List.filter wanted) := by
  change (m'.guarded dir _).map _ = (m.guarded dir _).map _
  rw [guarded_congr h.faults, if_pos hdir, if_pos (h.isDir hdir)]
  unfold guarded
  split
  · rfl
  · exact congrArg Except.ok (h.fileNames hwanted)

end Keeps

/-! ## Changes within one directory -/

/-- Nothing but files right in one directory is changed. -/
structure ChangesOnlyIn (dir : Path) (m m' : Memory) : Prop where
  files : m'.files.filter (fun f => f.1.parentComponents? ≠ some dir.components) =
    m.files.filter fun f => f.1.parentComponents? ≠ some dir.components
  dirs : m'.dirs = m.dirs
  faults : m'.faults = m.faults

namespace ChangesOnlyIn

variable {dir : Path} {m'' : Memory}

theorem refl (dir : Path) (m : Memory) : ChangesOnlyIn dir m m := ⟨rfl, rfl, rfl⟩

theorem trans (h : ChangesOnlyIn dir m m') (h' : ChangesOnlyIn dir m' m'') :
    ChangesOnlyIn dir m m'' :=
  ⟨h'.files.trans h.files, h'.dirs.trans h.dirs, h'.faults.trans h.faults⟩

/-- A file with a plain name, put into the directory. -/
theorem add (dir : Path) {name : String} (hname : IsPlain name) (m : Memory)
    (bytes : List UInt8) : ChangesOnlyIn dir m (m.add (dir.push name) bytes) where
  files := filter_place (fun q => q.parentComponents? ≠ some dir.components)
    (fun q hq => by simp [parentComponents?_of_same hq, parentComponents?_push dir hname]) bytes _
  dirs := rfl
  faults := rfl

/-- If the directory was made beforehand, none is lost. -/
theorem keeps (h : ChangesOnlyIn dir m m') (hdir : dir ∈ m.dirs) :
    Keeps (fun q => q.parentComponents? ≠ some dir.components) m m' where
  files := h.files
  dirs := by
    intro d hd
    rw [mem_dirComponents] at hd ⊢
    by_cases hsame : d = dir.components
    · exact .inl ⟨dir, h.dirs ▸ hdir, hsame.symm⟩
    · rcases hd with ⟨p, hp, hd⟩ | ⟨f, hf, hd⟩
      · exact .inl ⟨p, h.dirs ▸ hp, hd⟩
      · have hkept : f ∈ m'.files.filter fun f => f.1.parentComponents? ≠ some dir.components := by
          rw [h.files, List.mem_filter]
          exact ⟨hf, by simpa [hd] using hsame⟩
        exact .inr ⟨f, (List.mem_filter.mp hkept).1, hd⟩
  faults := h.faults

end ChangesOnlyIn

end AssetPack.Memory
