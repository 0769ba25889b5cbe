import AssetPack.Proofs.Files.Memory
import Mathlib.Data.List.Sort
import Mathlib.Data.String.Basic

/-!
# Files in order

Files in memory stand in ascending order of their paths, each place once. So a listing has the names
of a directory in ascending order, and what it shows depends on nothing but which files are there
(`Memory.filter_fileNames_congr`).

`Memory.SameFile` is what is asked of two states at a single path. Whatever is read there is then
the same in both, and a write there is answered alike.
-/

set_option autoImplicit false

namespace AssetPack

namespace Path

theorem componentsBefore_append (front p q : List Component) :
    componentsBefore (front ++ p) (front ++ q) = componentsBefore p q := by
  induction front with
  | nil => rfl
  | cons a front ih => rw [List.cons_append, List.cons_append, componentsBefore, if_pos rfl, ih]

end Path

namespace Memory

open AssetPack.Path

variable {m m' : Memory}

/-! ## Listings -/

theorem components_of_nameIn? {dir p : Path} {name : String} (h : nameIn? dir p = some name) :
    p.components = dir.components ++ [.name name] := by
  obtain ⟨hparent, hname⟩ := nameIn?_eq_some.mp h
  have hlast : p.components.getLast? = some (.name name) := by
    unfold fileName? at hname
    split at hname
    · next hlast => rw [hlast, Option.some.inj hname]
    · cases hname
  rw [parentComponents?, hlast] at hparent
  obtain ⟨front, hfront⟩ := List.getLast?_eq_some_iff.mp hlast
  rw [hfront, List.dropLast_concat] at hparent
  rw [hfront, Option.some.inj hparent]

theorem nameIn?_eq_some_iff {dir p : Path} {name : String} :
    nameIn? dir p = some name ↔ p.components = dir.components ++ [.name name] := by
  constructor
  · exact components_of_nameIn?
  · intro h
    rw [nameIn?_eq_some, parentComponents?, fileName?, h, List.getLast?_concat,
      List.dropLast_concat]
    exact ⟨rfl, rfl⟩

/-- There is a file of this name right in the directory, with these bytes. -/
def HasFile (m : Memory) (dir : Path) (name : String) (bytes : List UInt8) : Prop :=
  ∃ f ∈ m.files, f.1.components = dir.components ++ [.name name] ∧ f.2 = bytes

theorem mem_fileNames_iff {dir : Path} {name : String} :
    name ∈ m.fileNames dir ↔ ∃ bytes, m.HasFile dir name bytes := by
  rw [fileNames_eq, List.mem_filterMap]
  constructor
  · rintro ⟨f, hf, hname⟩
    exact ⟨f.2, f, hf, nameIn?_eq_some_iff.mp hname, rfl⟩
  · rintro ⟨_, f, hf, hcomponents, -⟩
    exact ⟨f, hf, nameIn?_eq_some_iff.mpr hcomponents⟩

/-- A listing is in ascending order. -/
theorem pairwise_fileNames (m : Memory) (dir : Path) : (m.fileNames dir).Pairwise (· < ·) := by
  rw [fileNames_eq, List.pairwise_filterMap]
  refine m.ordered.imp fun {f g} hfg a ha b hb => ?_
  rw [components_of_nameIn? ha, components_of_nameIn? hb, componentsBefore_append,
    componentsBefore_cons] at hfg
  rcases hfg with hlt | ⟨-, hnil⟩
  · exact of_decide_eq_true hlt
  · cases hnil

/-- Of two listings, what is wanted is the same if the same names are. -/
theorem filter_fileNames_congr {dir : Path} {wanted : String → Bool}
    (hnames : ∀ name, wanted name = true → (name ∈ m'.fileNames dir ↔ name ∈ m.fileNames dir)) :
    (m'.fileNames dir).filter wanted = (m.fileNames dir).filter wanted := by
  refine ((pairwise_fileNames m' dir).filter wanted).eq_of_mem_iff
    ((pairwise_fileNames m dir).filter wanted) fun name => ?_
  rw [List.mem_filter, List.mem_filter]
  exact and_congr_left fun hwanted => hnames name hwanted

/-- There is a directory of this name right in the directory: one that was made or holds a file, or
one on the way to such. -/
def HasDir (m : Memory) (dir : Path) (name : String) : Prop :=
  ∃ step rest, dir.components ++ step :: rest ∈ m.dirComponents ∧ step.text = name

theorem nodup_eraseDups : ∀ names : List String, names.eraseDups.Nodup
  | [] => List.nodup_nil
  | name :: rest => by
    have hrest := nodup_eraseDups (rest.filter fun other => !other == name)
    rw [List.eraseDups_cons, List.nodup_cons]
    exact ⟨by simp, hrest⟩
termination_by names => names.length
decreasing_by exact Nat.lt_succ_of_le (List.length_filter_le _ _)

theorem mem_dirNames_iff {dir : Path} {name : String} :
    name ∈ m.dirNames dir ↔ m.HasDir dir name := by
  unfold dirNames HasDir
  rw [List.mem_eraseDups, List.mem_mergeSort, List.mem_filterMap]
  constructor
  · rintro ⟨d, hd, hname⟩
    obtain ⟨rest, hrest, hname⟩ := Option.bind_eq_some_iff.mp hname
    obtain ⟨step, hstep, rfl⟩ := Option.map_eq_some_iff.mp hname
    obtain ⟨rest, rfl⟩ := List.head?_eq_some_iff.mp hstep
    rw [List.isPrefixOf?_eq_some_iff_append_eq] at hrest
    exact ⟨step, rest, hrest ▸ hd, rfl⟩
  · rintro ⟨step, rest, hd, rfl⟩
    refine ⟨_, hd, Option.bind_eq_some_iff.mpr ⟨step :: rest, ?_, rfl⟩⟩
    rw [List.isPrefixOf?_eq_some_iff_append_eq]

/-- Every directory lies on the way of some path. -/
theorem exists_prefix_of_mem_dirComponents {d : List Component} (h : d ∈ m.dirComponents) :
    ∃ p : Path, d <+: p.components := by
  rcases mem_dirComponents.mp h with ⟨p, -, rfl⟩ | ⟨f, -, hparent⟩
  · exact ⟨p, List.prefix_rfl⟩
  · refine ⟨f.1, ?_⟩
    unfold parentComponents? at hparent
    split at hparent
    · cases hparent
    · cases hparent
    · obtain rfl := Option.some.inj hparent
      exact List.dropLast_prefix _

/-- A directory in a directory has a name. -/
theorem isEntryName_of_hasDir {dir : Path} {name : String} (hdir : dir.components ≠ [])
    (h : m.HasDir dir name) : IsEntryName name := by
  obtain ⟨step, rest, hd, rfl⟩ := h
  obtain ⟨p, behind, hp⟩ := exists_prefix_of_mem_dirComponents hd
  refine isEntryName_of_mem_tail (p := p) ?_
  rw [← hp, List.append_assoc, List.tail_append_of_ne_nil hdir]
  simp

/-! ## One path -/

/-- The failure that a path was made to have. -/
def fault? (m : Memory) (path : Path) : Option FaultKind :=
  (m.faults.find? fun f => f.1.same path).map Prod.snd

/-- Both states have the same file at the path, or none, and it fails in both or in neither. -/
structure SameFile (path : Path) (m m' : Memory) : Prop where
  find? : m'.find? path = m.find? path
  fault? : m'.fault? path = m.fault? path

theorem guarded_eq (m : Memory) (path : Path) {α : Type} (answer : Except FileError α) :
    m.guarded path answer =
      match m.fault? path with
      | some fault => .error (fault.error path)
      | none => answer := by
  unfold guarded Memory.fault?
  cases m.faults.find? fun f => f.1.same path <;> rfl

theorem guarded_eq_ok {path : Path} {α : Type} {answer : Except FileError α} {a : α} :
    m.guarded path answer = .ok a ↔ m.fault? path = none ∧ answer = .ok a := by
  rw [guarded_eq]
  cases m.fault? path <;> simp

theorem listDirs_eq_ok_iff {dir : Path} {names : List String} :
    FileSystem.listDirs m dir = .ok names ↔
      m.fault? dir = none ∧ m.isDir dir = true ∧ m.dirNames dir = names := by
  change m.guarded dir _ = _ ↔ _
  rw [guarded_eq_ok]
  cases m.isDir dir <;> simp

/-- A single directory is listed where there is one and no other, unless the path fails. -/
theorem listDirs_eq_singleton_iff {dir : Path} {name : String} :
    FileSystem.listDirs m dir = .ok [name] ↔
      m.fault? dir = none ∧ ∀ other, m.HasDir dir other ↔ other = name := by
  rw [listDirs_eq_ok_iff]
  refine and_congr_right fun _ => ?_
  constructor
  · rintro ⟨-, hnames⟩ other
    rw [← mem_dirNames_iff, hnames, List.mem_singleton]
  · intro h
    have hmem : ∀ other, other ∈ m.dirNames dir ↔ other ∈ [name] := fun other => by
      rw [mem_dirNames_iff, h, List.mem_singleton]
    have hperm : (m.dirNames dir).Perm [name] :=
      (List.perm_ext_iff_of_nodup (nodup_eraseDups _) (List.nodup_singleton name)).mpr hmem
    obtain ⟨step, rest, hd, -⟩ := (h name).mpr rfl
    exact ⟨isDir_iff.mpr ⟨_, hd, List.prefix_append _ _⟩, List.perm_singleton.mp hperm⟩

theorem guarded_of_fault? {path : Path} (h : m'.fault? path = m.fault? path) {α : Type}
    (answer : Except FileError α) : m'.guarded path answer = m.guarded path answer := by
  rw [guarded_eq, guarded_eq, h]

/-- A file that is listed is read, unless its path fails. -/
theorem exists_read {dir : Path} {name : String} (h : name ∈ m.fileNames dir)
    (hfault : m.fault? (dir.push name) = none) :
    ∃ bytes, FileSystem.read m (dir.push name) = .ok bytes ∧ m.HasFile dir name bytes := by
  have hpush := components_push dir (isPlain_of_mem_fileNames h)
  obtain ⟨_, f, hf, hcomponents, -⟩ := mem_fileNames_iff.mp h
  have hsame : f.1.same (dir.push name) = true := same_iff.mpr (hcomponents.trans hpush.symm)
  obtain ⟨g, hg⟩ : ∃ g, m.files.find? (fun f => f.1.same (dir.push name)) = some g :=
    Option.isSome_iff_exists.mp (List.find?_isSome.mpr ⟨f, hf, hsame⟩)
  have hfound : m.find? (dir.push name) = some g.2 := by
    rw [find?, hg]
    rfl
  have hsame' : g.1.same (dir.push name) = true := by
    simpa using List.find?_some hg
  refine ⟨g.2, ?_, g, List.mem_of_find?_eq_some hg, ?_, rfl⟩
  · change m.guarded (dir.push name) _ = _
    rw [guarded_eq, hfault, hfound]
  · rw [← hpush]
    exact same_iff.mp hsame'

/-- Whether a write is refused depends on the failure of its path alone. -/
theorem fst_write (m : Memory) (path : Path) (bytes : List UInt8) :
    (FileSystem.write m path bytes).1 = m.guarded path (.ok ()) := by
  change (m.guardedChange path _).1 = _
  unfold guardedChange
  split
  · next he => exact he.symm
  · next hok => exact hok.symm

namespace SameFile

variable {path : Path}

theorem read (h : SameFile path m m') : FileSystem.read m' path = FileSystem.read m path := by
  change m'.guarded path _ = m.guarded path _
  rw [guarded_of_fault? h.fault?, h.find?]

theorem firstLine (h : SameFile path m m') :
    FileSystem.firstLine m' path = FileSystem.firstLine m path := by
  change m'.guarded path _ = m.guarded path _
  rw [guarded_of_fault? h.fault?, h.find?]

theorem fst_write (h : SameFile path m m') (bytes : List UInt8) :
    (FileSystem.write m' path bytes).1 = (FileSystem.write m path bytes).1 := by
  rw [Memory.fst_write, Memory.fst_write, guarded_of_fault? h.fault?]

end SameFile

/-! ## Other bytes in one file -/

theorem map_fst_place (path : Path) (bytes bytes' : List UInt8) (files : List (Path × List UInt8)) :
    (place path bytes' files).map Prod.fst = (place path bytes files).map Prod.fst := by
  induction files with
  | nil => rfl
  | cons f r ih =>
    rw [place, place]
    split
    · rfl
    · split
      · rfl
      · rw [List.map_cons, List.map_cons, ih]

/-- Directories are told by paths alone, -/
theorem isDir_add (m : Memory) (path : Path) (bytes bytes' : List UInt8) (p : Path) :
    (m.add path bytes').isDir p = (m.add path bytes).isDir p := by
  have hparents : ∀ files : List (Path × List UInt8), (files.filterMap fun f =>
      f.1.parentComponents?) = (files.map Prod.fst).filterMap parentComponents? := fun files => by
    rw [List.filterMap_map]
    rfl
  simp only [Memory.isDir, dirComponents, hparents, add, map_fst_place path bytes bytes']

/-- and so are listings. -/
theorem fileNames_add (m : Memory) (path : Path) (bytes bytes' : List UInt8) (dir : Path) :
    (m.add path bytes').fileNames dir = (m.add path bytes).fileNames dir := by
  have hnames : ∀ files : List (Path × List UInt8), (files.filterMap fun f => nameIn? dir f.1) =
      (files.map Prod.fst).filterMap (nameIn? dir) := fun files => by
    rw [List.filterMap_map]
    rfl
  simp only [fileNames_eq, hnames, add, map_fst_place path bytes bytes']

/-- All other files are the same. -/
theorem sameFile_add (m : Memory) {path q : Path} (hq : q.same path = false)
    (bytes bytes' : List UInt8) : SameFile q (m.add path bytes) (m.add path bytes') where
  find? := by
    have hother : ∀ p : Path, p.same q = true → (!p.same path) = true := fun p hp => by
      rw [same, same_iff.mp hp]
      exact congrArg not hq
    rw [(Keeps.add m path bytes).find? hother, (Keeps.add m path bytes').find? hother]
  fault? := rfl

end Memory

end AssetPack
