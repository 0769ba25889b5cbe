import AssetPack.Files.FileSystem

/-!
# Files in memory

A file system that is nothing but a list of files. Directories are implied by the files in them;
others exist only after they were made. Files stand in ascending order of their paths, each place
once, under the path by which it was first named.

A path may be made to fail: every operation on exactly that path then gives the error, except
those that only ask what is there.
-/

set_option autoImplicit false

namespace AssetPack

/-- A failure that a path can be made to have. -/
inductive FaultKind where
  | notFound
  | permissionDenied
  | system (cause : SystemError)
  deriving DecidableEq, Repr

/-- The error of a failure at a path. -/
def FaultKind.error (path : Path) : FaultKind → FileError
  | .notFound => .notFound path
  | .permissionDenied => .permissionDenied path
  | .system cause => .system path cause

namespace Memory

/-! ## Files in order -/

/-- Files stand in ascending order of their paths, and so no place twice. -/
def Ordered (files : List (Path × List UInt8)) : Prop :=
  files.Pairwise fun f g => Path.componentsBefore f.1.components g.1.components = true

instance (files : List (Path × List UInt8)) : Decidable (Ordered files) :=
  inferInstanceAs (Decidable (List.Pairwise _ files))

/-- Files with one more, in place of the one at the same place if there is one. -/
def place (path : Path) (bytes : List UInt8) : List (Path × List UInt8) → List (Path × List UInt8)
  | [] => [(path, bytes)]
  | f :: r =>
    if f.1.same path then (f.1, bytes) :: r
    else if Path.componentsBefore path.components f.1.components then (path, bytes) :: f :: r
    else f :: place path bytes r

/-- Each path in a list with one more file is that of a file of the list, or that file's. -/
theorem components_of_mem_place {path : Path} {bytes : List UInt8}
    {files : List (Path × List UInt8)} {g : Path × List UInt8} (hg : g ∈ place path bytes files) :
    g.1.components = path.components ∨ ∃ f ∈ files, f.1.components = g.1.components := by
  induction files with
  | nil =>
    obtain rfl := List.mem_singleton.mp hg
    exact .inl rfl
  | cons f r ih =>
    rw [place] at hg
    split at hg
    · rcases List.mem_cons.mp hg with rfl | hg
      · exact .inr ⟨f, List.mem_cons_self, rfl⟩
      · exact .inr ⟨g, List.mem_cons_of_mem _ hg, rfl⟩
    · split at hg
      · rcases List.mem_cons.mp hg with rfl | hg
        · exact .inl rfl
        · exact .inr ⟨g, hg, rfl⟩
      · rcases List.mem_cons.mp hg with rfl | hg
        · exact .inr ⟨g, List.mem_cons_self, rfl⟩
        · rcases ih hg with heq | ⟨f', hf', heq⟩
          · exact .inl heq
          · exact .inr ⟨f', List.mem_cons_of_mem _ hf', heq⟩

theorem ordered_place {files : List (Path × List UInt8)} (h : Ordered files) (path : Path)
    (bytes : List UInt8) : Ordered (place path bytes files) := by
  induction files with
  | nil => exact List.pairwise_singleton _ _
  | cons f r ih =>
    obtain ⟨hfirst, hrest⟩ := List.pairwise_cons.mp h
    rw [place]
    split
    · exact List.pairwise_cons.mpr ⟨hfirst, hrest⟩
    · next hsame =>
      split
      · next hbefore =>
        refine List.pairwise_cons.mpr ⟨fun g hg => ?_, h⟩
        rcases List.mem_cons.mp hg with rfl | hg
        · exact hbefore
        · exact Path.componentsBefore_trans hbefore (hfirst g hg)
      · next hbefore =>
        refine List.pairwise_cons.mpr ⟨fun g hg => ?_, ih hrest⟩
        rcases components_of_mem_place hg with heq | ⟨f', hf', heq⟩
        · rw [heq]
          have hne : path.components ≠ f.1.components := fun hp =>
            hsame (Path.same_iff.mpr hp.symm)
          exact Path.componentsBefore_of_not hne hbefore
        · rw [← heq]
          exact hfirst f' hf'

end Memory

/-- Files, made directories, failing paths, and the number of writes so far. -/
structure Memory where
  files : List (Path × List UInt8)
  dirs : List Path
  faults : List (Path × FaultKind)
  writes : Nat
  ordered : Memory.Ordered files

namespace Memory

/-- No files. -/
def empty : Memory := ⟨[], [], [], 0, .nil⟩

/-! ## Changes -/

/-- The state with a file added, whatever failures there are. -/
def add (m : Memory) (path : Path) (bytes : List UInt8) : Memory :=
  { m with files := place path bytes m.files, ordered := ordered_place m.ordered path bytes }

/-- The state without a file. -/
def remove (m : Memory) (path : Path) : Memory :=
  { m with
    files := m.files.filter fun f => !f.1.same path
    ordered := m.ordered.filter _ }

/-- The bytes of the file at a place. -/
def find? (m : Memory) (path : Path) : Option (List UInt8) :=
  (m.files.find? fun f => f.1.same path).map Prod.snd

/-! ## Directories -/

/-- All lists of steps that lead to a directory: those of made ones, and those of the directories
that hold a file. -/
def dirComponents (m : Memory) : List (List Component) :=
  m.dirs.map Path.components ++ m.files.filterMap fun f => f.1.parentComponents?

/-- Whether a directory is there: one that was made or holds a file, or one on the way to such. -/
def isDir (m : Memory) (path : Path) : Bool :=
  m.dirComponents.any fun d => path.components.isPrefixOf d

/-- Whether anything is there. -/
def isThere (m : Memory) (path : Path) : Bool := (m.find? path).isSome || m.isDir path

/-- The names of the files right in a directory. -/
def fileNames (m : Memory) (dir : Path) : List String :=
  m.files.filterMap fun f =>
    if f.1.parentComponents? = some dir.components then f.1.fileName? else none

/-- The names of the directories right in a directory, each once and in ascending order. -/
def dirNames (m : Memory) (dir : Path) : List String :=
  let names := m.dirComponents.filterMap fun d =>
    (dir.components.isPrefixOf? d).bind fun rest => rest.head?.map Component.text
  (names.mergeSort fun a b => decide (a ≤ b)).eraseDups

/-! ## Failures -/

/-- The state in which a path fails, or no longer fails. -/
def setFault (m : Memory) (path : Path) (fault : Option FaultKind) : Memory :=
  let others := m.faults.filter fun f => !f.1.same path
  { m with faults := others ++ (fault.map (path, ·)).toList }

/-- The answer of an operation, unless the path fails. -/
def guarded {α : Type} (m : Memory) (path : Path) (answer : Except FileError α) :
    Except FileError α :=
  match m.faults.find? fun f => f.1.same path with
  | some f => .error (f.2.error path)
  | none => answer

/-- The answer and new state of an operation, unless the path fails. -/
def guardedChange (m : Memory) (path : Path) (changed : Memory) : Except FileError Unit × Memory :=
  match m.guarded path (.ok ()) with
  | .error e => (.error e, m)
  | .ok () => (.ok (), changed)

instance : FileSystem Memory where
  read m path := m.guarded path <|
    match m.find? path with
    | some bytes => .ok bytes
    | none => .error (.notFound path)
  firstLine m path := m.guarded path (.ok ((m.find? path).map FileSystem.firstLineOf))
  isThere := isThere
  isDir := isDir
  isFile m path := m.isThere path && !m.isDir path
  listFiles m dir := m.guarded dir <|
    if m.isDir dir then .ok (m.fileNames dir) else .error (.notFound dir)
  listDirs m dir := m.guarded dir <|
    if m.isDir dir then .ok (m.dirNames dir) else .error (.notFound dir)
  write m path bytes := m.guardedChange path { m.add path bytes with writes := m.writes + 1 }
  createDirs m path := m.guardedChange path { m with dirs := m.dirs ++ [path] }

end Memory

end AssetPack
