import AssetPack.Crunch.Locate
import AssetPack.Proofs.Files.Listing
import AssetPack.Proofs.Job

/-!
# Which tool it is

Exactly one source says where the tool is, the first that is there (`Decides`), and it says one
place (`Candidate`). Nothing else is asked: a tool that is not at that place is missing, whatever
the other sources name. A command name is taken without a look, since the machine finds it in its
own way; it is either the built-in one or a single step that a variable names (`NamesCommand`). One
more thing is taken without a look, the empty path in the place of the tool variable. It is neither
a file nor a command (`empty_tool_is_taken`), and reading an environment never puts it there.

Where a development kit keeps the tool depends on how many versions of its build tools there are.
The two places are told apart by their texts, and so are those of two versions, as versions are
names without a slash.
-/

set_option autoImplicit false

namespace AssetPack

/-- Only the empty text has no step. -/
theorem Path.components_eq_nil_iff {p : Path} : p.components = [] ↔ p.text = "" := by
  constructor
  · intro h
    obtain ⟨first, rest, hsplit⟩ := List.exists_cons_of_ne_nil (Text.split_ne_nil '/' p.text.toList)
    rw [components_of_split hsplit, List.append_eq_nil_iff] at h
    have hopening := h.1
    unfold opening at hopening
    split at hopening
    case isTrue hfirst =>
      have hrest : rest = [] := by
        by_contra hne
        rw [if_neg hne] at hopening
        cases hopening
      have hjoin := Text.join_split '/' p.text.toList
      rw [hsplit, hfirst, hrest] at hjoin
      exact String.toList_inj.mp hjoin.symm
    case isFalse hfirst =>
      split at hopening
      · cases hopening
      · rename_i hhere
        simp [Component.ofInner?, hfirst, hhere] at hopening
        split at hopening <;> cases hopening
  · intro h
    obtain ⟨text⟩ := p
    obtain rfl : text = "" := h
    decide

namespace ToolEnv

/-- A variable that is empty counts as one that is not set. -/
theorem text_ne_of_ofLookup {lookup : String → Option String} {path : Path}
    (h : (ofLookup lookup).tool? = some path ∨ (ofLookup lookup).kit? = some path) :
    path.text ≠ "" := by
  have hvalue : ∀ name, ((lookup name).filter (· ≠ "")).map Path.mk = some path →
      path.text ≠ "" := by
    intro name hname
    obtain ⟨value, hfilter, rfl⟩ := Option.map_eq_some_iff.mp hname
    simpa using (Option.filter_eq_some_iff.mp hfilter).2
  exact h.elim (hvalue _) (hvalue _)

end ToolEnv

namespace Crunch

/-! ## Sources -/

/-- What may name the tool, with what it says. -/
inductive ToolSource where
  | settings (path : Path)
  | toolVariable (path : Path)
  | kitVariable (kit : Path)
  | builtin

/-- The source is there, and none that comes before it is. -/
inductive Decides : Option Path → ToolEnv → ToolSource → Prop
  | settings (path : Path) (env : ToolEnv) : Decides (some path) env (.settings path)
  | toolVariable (path : Path) (kit? : Option Path) :
    Decides none ⟨some path, kit?⟩ (.toolVariable path)
  | kitVariable (kit : Path) : Decides none ⟨none, some kit⟩ (.kitVariable kit)
  | builtin : Decides none ⟨none, none⟩ .builtin

variable {configured configured' : Option Path} {env env' : ToolEnv} {s s' : ToolSource}

theorem Decides.unique (h : Decides configured env s) (h' : Decides configured env s') :
    s' = s := by
  cases h <;> cases h' <;> rfl

theorem exists_decides (configured : Option Path) (env : ToolEnv) :
    ∃ s, Decides configured env s := by
  obtain ⟨tool?, kit?⟩ := env
  match configured, tool?, kit? with
  | some path, tool?, kit? => exact ⟨_, .settings path ⟨tool?, kit?⟩⟩
  | none, some path, kit? => exact ⟨_, .toolVariable path kit?⟩
  | none, none, some kit => exact ⟨_, .kitVariable kit⟩
  | none, none, none => exact ⟨_, .builtin⟩

/-! ## Candidates -/

/-- Where a kit keeps the tool of one version of its build tools. -/
def versionTool (kit : Path) (version : String) : Path :=
  ((kit.push "build-tools").push version).push "aapt"

/-- Where a kit keeps the tool beside its platform tools. -/
def platformTool (kit : Path) : Path := (kit.push "platform-tools").push "aapt"

variable {σ : Type} [FileSystem σ]

/-- The versions of a kit's build tools, if they can be listed. -/
def versions (fs : σ) (kit : Path) : Except FileError (List String) :=
  FileSystem.listDirs fs (kit.push "build-tools")

/-- The one place at which a source says that the tool is. -/
inductive Candidate (fs : σ) : ToolSource → Path → Prop
  | settings (path : Path) : Candidate fs (.settings path) path
  | toolVariable (path : Path) : Candidate fs (.toolVariable path) path
  | onlyVersion {kit : Path} {version : String} (h : versions fs kit = .ok [version]) :
    Candidate fs (.kitVariable kit) (versionTool kit version)
  | platform {kit : Path} (h : ∀ version, versions fs kit ≠ .ok [version]) :
    Candidate fs (.kitVariable kit) (platformTool kit)
  | builtin : Candidate fs .builtin ⟨"aapt"⟩

/-- What the source says is the name of a command: a single step in a variable, or what is built
in. -/
inductive NamesCommand : ToolSource → Prop
  | toolVariable {path : Path} (h : path.components.length = 1) : NamesCommand (.toolVariable path)
  | builtin : NamesCommand .builtin

/-- What the source says is not looked for: the name of a command, or the empty path in the place of
the tool variable. -/
def Unlooked (s : ToolSource) : Prop := NamesCommand s ∨ s = .toolVariable ⟨""⟩

variable {fs : σ} {candidate path : Path}

theorem Candidate.unique {candidate' : Path} (h : Candidate fs s candidate)
    (h' : Candidate fs s candidate') : candidate' = candidate := by
  cases h <;> cases h' <;> first | rfl | skip
  case onlyVersion.onlyVersion h _ h' =>
    rw [h] at h'
    cases h'
    rfl
  case onlyVersion.platform h h' => exact absurd h (h' _)
  case platform.onlyVersion h _ h' => exact absurd h' (h _)

theorem candidate_kitTool (fs : σ) (kit : Path) :
    Candidate fs (.kitVariable kit) (kitTool fs kit) := by
  unfold kitTool
  dsimp only
  split
  case h_1 only hlist => exact .onlyVersion hlist
  case h_2 hnot => exact .platform hnot

theorem exists_candidate (fs : σ) (s : ToolSource) : ∃ path, Candidate fs s path := by
  cases s with
  | settings path => exact ⟨path, .settings path⟩
  | toolVariable path => exact ⟨path, .toolVariable path⟩
  | kitVariable kit => exact ⟨_, candidate_kitTool fs kit⟩
  | builtin => exact ⟨_, .builtin⟩

/-! ## Kits -/

theorem toList_versionTool (kit : Path) {version : String} (h : IsEntryName version) :
    (versionTool kit version).text.toList =
      (kit.push "build-tools").text.toList ++ '/' :: (version.toList ++ "/aapt".toList) := by
  have htools : IsEntryName "build-tools" := ⟨by decide, by decide⟩
  rw [versionTool, Path.toList_push _ (by decide), Path.gap_push _ h, Path.toList_push _ h.noSlash,
    Path.gap_push _ htools]
  simp

theorem versionTool_ne_platformTool (kit : Path) {version : String} (h : IsEntryName version) :
    versionTool kit version ≠ platformTool kit := by
  intro heq
  have htexts := congrArg (fun p => p.text.toList) heq
  rw [toList_versionTool kit h, platformTool, Path.toList_push (kit.push _) (by decide),
    Path.toList_push kit (by decide), Path.toList_push kit (by decide)] at htexts
  simp at htexts

theorem versionTool_inj (kit : Path) {v v' : String} (h : IsEntryName v) (h' : IsEntryName v') :
    versionTool kit v = versionTool kit v' ↔ v = v' := by
  constructor
  · intro heq
    have htexts := congrArg (fun p => p.text.toList) heq
    rw [toList_versionTool kit h, toList_versionTool kit h'] at htexts
    exact String.toList_inj.mp (by simpa using htexts)
  · rintro rfl
    rfl

/-- Directories have names, and then the candidate tells how many versions there are. -/
theorem candidate_kit_iff {kit : Path} (hc : Candidate fs (.kitVariable kit) candidate)
    (hnames : ∀ names, versions fs kit = .ok names → ∀ name ∈ names, IsEntryName name) :
    (∀ v, IsEntryName v → (candidate = versionTool kit v ↔ versions fs kit = .ok [v])) ∧
      (candidate = platformTool kit ↔ ∀ v, versions fs kit ≠ .ok [v]) := by
  cases hc with
  | @onlyVersion _ version hlist =>
    have hversion : IsEntryName version := hnames _ hlist version List.mem_cons_self
    constructor
    · intro v hv
      rw [versionTool_inj kit hversion hv, hlist]
      simp
    · refine iff_of_false (versionTool_ne_platformTool kit hversion) ?_
      exact fun hnot => hnot version hlist
  | platform hnot =>
    refine ⟨fun v hv => ?_, iff_of_true rfl hnot⟩
    exact iff_of_false (fun h => versionTool_ne_platformTool kit hv h.symm) (hnot v)

/-- What is listed in memory has a name. -/
theorem isEntryName_of_mem_versions {m : Memory} {kit : Path} {names : List String}
    (h : versions m kit = .ok names) {name : String} (hname : name ∈ names) : IsEntryName name := by
  obtain ⟨-, -, rfl⟩ := Memory.listDirs_eq_ok_iff.mp h
  refine Memory.isEntryName_of_hasDir ?_ (Memory.mem_dirNames_iff.mp hname)
  rw [Path.components_push _ (by decide)]
  simp

/-! ## The tool -/

/-- The source that decides says all there is to say. -/
theorem locate_eq_of_decides (h : Decides configured env s) (h' : Decides configured' env' s) :
    locate fs configured' env' = locate fs configured env := by
  cases h <;> cases h' <;> rfl

theorem result_requireFile (fs : σ) (path : Path) :
    FileSystem.isFile fs path = true ∧ (requireFile fs path).result = .ok path ∨
      ¬FileSystem.isFile fs path = true ∧
        (requireFile fs path).result = .error (.toolNotFound path) := by
  unfold requireFile
  split
  · exact .inl ⟨‹_›, rfl⟩
  · exact .inr ⟨‹_›, rfl⟩

/-- Only a path of more than one step is looked for. -/
theorem unlooked_toolVariable_iff {path : Path} :
    Unlooked (.toolVariable path) ↔ ¬path.components.length > 1 := by
  have hempty : path = ⟨""⟩ ↔ path.components.length = 0 := by
    rw [List.length_eq_zero_iff, Path.components_eq_nil_iff, Path.mk.injEq]
  constructor
  · rintro (⟨⟨hone⟩⟩ | hnone)
    · rw [hone]
      decide
    · rw [hempty.mp (ToolSource.toolVariable.inj hnone)]
      decide
  · intro hsteps
    by_cases hone : path.components.length = 1
    · exact .inl (.toolVariable hone)
    · exact .inr (congrArg _ (hempty.mpr (by omega)))

theorem not_unlooked_settings (path : Path) : ¬Unlooked (.settings path)
  | .inl h => nomatch h
  | .inr h => nomatch h

theorem not_unlooked_kitVariable (kit : Path) : ¬Unlooked (.kitVariable kit)
  | .inl h => nomatch h
  | .inr h => nomatch h

/-- The tool is at the candidate, or it is missing there. -/
theorem result_locate (h : Decides configured env s) (hc : Candidate fs s candidate) :
    (FileSystem.isFile fs candidate = true ∨ Unlooked s) ∧
        (locate fs configured env).result = .ok candidate ∨
      ¬(FileSystem.isFile fs candidate = true ∨ Unlooked s) ∧
        (locate fs configured env).result = .error (.toolNotFound candidate) := by
  -- What is not taken without a look is left to the look.
  have hlook (hnot : ¬Unlooked s)
      (heq : (locate fs configured env).result = (requireFile fs candidate).result) :
      (FileSystem.isFile fs candidate = true ∨ Unlooked s) ∧
          (locate fs configured env).result = .ok candidate ∨
        ¬(FileSystem.isFile fs candidate = true ∨ Unlooked s) ∧
          (locate fs configured env).result = .error (.toolNotFound candidate) := by
    rw [or_iff_left hnot, heq]
    exact result_requireFile fs candidate
  cases h with
  | settings path env =>
    cases hc
    exact hlook (not_unlooked_settings _) (by simp [locate])
  | toolVariable path kit? =>
    cases hc
    by_cases hsteps : candidate.components.length > 1
    · have hnot : ¬Unlooked (.toolVariable candidate) := fun h =>
        unlooked_toolVariable_iff.mp h hsteps
      exact hlook hnot (by simp [locate, hsteps])
    · have hunlooked := unlooked_toolVariable_iff.mpr hsteps
      exact .inl ⟨.inr hunlooked, by simp [locate, hsteps]⟩
  | kitVariable kit =>
    obtain rfl := (candidate_kitTool fs kit).unique hc
    exact hlook (not_unlooked_kitVariable _) (by simp [locate])
  | builtin =>
    cases hc
    exact .inl ⟨.inr (.inl .builtin), rfl⟩

/-- **The tool is looked for in one place.** The first source that is there decides, and the answer
is the same whatever the later ones say. It is the candidate of that source, which has to be a file
unless it is a command name or the empty path of a variable; if it is not, the error names this very
candidate and nothing else. For a development kit, whose directories have names, the candidate is
that of the only version of its build tools, if they can be listed and there is one and no other,
and the one beside its platform tools if not. No variable that is read from an environment is empty.
What is said of a kit's versions holds of files in memory, and means there what is said last. -/
theorem first_source_decides (fs : σ) (configured : Option Path) (env : ToolEnv) :
    (∃ source candidate,
      (∀ s, Decides configured env s ↔ s = source) ∧
      (∀ path, Candidate fs source path ↔ path = candidate) ∧
      (∀ configured' env', Decides configured' env' source →
        locate fs configured' env' = locate fs configured env) ∧
      (∀ path, (locate fs configured env).result = .ok path ↔
        path = candidate ∧ (FileSystem.isFile fs path = true ∨ NamesCommand source ∨
          source = .toolVariable ⟨""⟩)) ∧
      (∀ e, (locate fs configured env).result = .error e ↔
        e = .toolNotFound candidate ∧ ¬FileSystem.isFile fs candidate = true ∧
          ¬NamesCommand source ∧ source ≠ .toolVariable ⟨""⟩) ∧
      ∀ kit, source = .kitVariable kit →
        (∀ names, versions fs kit = .ok names → ∀ name ∈ names, IsEntryName name) →
        (∀ v, IsEntryName v → (candidate = versionTool kit v ↔ versions fs kit = .ok [v])) ∧
          (candidate = platformTool kit ↔ ∀ v, versions fs kit ≠ .ok [v])) ∧
    (∀ lookup path, (ToolEnv.ofLookup lookup).tool? = some path ∨
      (ToolEnv.ofLookup lookup).kit? = some path → path.text ≠ "") ∧
    ∀ (m : Memory) kit,
      (∀ names, versions m kit = .ok names → ∀ name ∈ names, IsEntryName name) ∧
      ∀ v, versions m kit = .ok [v] ↔ m.fault? (kit.push "build-tools") = none ∧
        ∀ name, m.HasDir (kit.push "build-tools") name ↔ name = v := by
  obtain ⟨source, hsource⟩ := exists_decides configured env
  obtain ⟨candidate, hcandidate⟩ := exists_candidate fs source
  refine ⟨⟨source, candidate, fun s => ⟨hsource.unique, ?_⟩, fun path => ⟨hcandidate.unique, ?_⟩,
    fun _ _ h' => locate_eq_of_decides hsource h', fun path => ?_, fun e => ?_, ?_⟩,
    fun _ _ => ToolEnv.text_ne_of_ofLookup, fun m kit =>
      ⟨fun _ h _ hname => isEntryName_of_mem_versions h hname,
        fun v => Memory.listDirs_eq_singleton_iff⟩⟩
  · rintro rfl
    exact hsource
  · rintro rfl
    exact hcandidate
  · rcases result_locate hsource hcandidate with ⟨hfound, hresult⟩ | ⟨hmissing, hresult⟩
    · rw [hresult, Except.ok.injEq]
      exact ⟨fun h => ⟨h.symm, h ▸ hfound⟩, fun h => h.1.symm⟩
    · rw [hresult]
      exact iff_of_false nofun fun h => hmissing (h.1 ▸ h.2)
  · rw [← ne_eq, ← not_or, ← not_or]
    rcases result_locate hsource hcandidate with ⟨hfound, hresult⟩ | ⟨hmissing, hresult⟩
    · rw [hresult]
      exact iff_of_false nofun fun h => h.2 hfound
    · rw [hresult, Except.error.injEq]
      exact ⟨fun h => ⟨h.symm, hmissing⟩, fun h => h.1.symm⟩
  · rintro kit rfl hnames
    exact candidate_kit_iff hcandidate hnames

namespace Kit

/-- A kit with two versions of its build tools, and a file beside them. -/
def memory : Memory :=
  ((Memory.empty.add ⟨"/sdk/build-tools/30.0.3/aapt"⟩ []).add
    ⟨"/sdk/build-tools/34.0.0/aapt"⟩ []).add ⟨"/sdk/build-tools/notes"⟩ []

theorem versions_eq : versions memory ⟨"/sdk"⟩ = .ok ["30.0.3", "34.0.0"] := by
  refine Memory.listDirs_eq_ok_iff.mpr ⟨rfl, by decide +kernel, ?_⟩
  have hnames : (memory.dirComponents.filterMap fun d =>
      ((Path.push ⟨"/sdk"⟩ "build-tools").components.isPrefixOf? d).bind fun rest =>
        rest.head?.map Component.text) = ["30.0.3", "34.0.0"] := by
    decide +kernel
  rw [Memory.dirNames, hnames, List.mergeSort_of_pairwise (by decide)]
  rfl

end Kit

/-- Neither of two versions is taken, and it is the other tool that is missing. -/
theorem first_source_decides_kit :
    (locate Kit.memory none ⟨none, some ⟨"/sdk"⟩⟩).result =
      .error (.toolNotFound ⟨"/sdk/platform-tools/aapt"⟩) := by
  obtain ⟨⟨source, candidate, hdecides, -, -, -, herror, hkit⟩, -⟩ :=
    first_source_decides Kit.memory none ⟨none, some ⟨"/sdk"⟩⟩
  obtain rfl := (hdecides _).mp (.kitVariable ⟨"/sdk"⟩)
  have hnames : ∀ names, versions Kit.memory ⟨"/sdk"⟩ = .ok names →
      ∀ name ∈ names, IsEntryName name := fun _ h _ hname => isEntryName_of_mem_versions h hname
  obtain rfl : candidate = platformTool ⟨"/sdk"⟩ := by
    refine (hkit ⟨"/sdk"⟩ rfl hnames).2.mpr fun v hv => ?_
    rw [Kit.versions_eq] at hv
    simp at hv
  exact (herror _).mpr ⟨by decide, by decide +kernel, nofun, nofun⟩

/-- The empty path in the place of the tool variable is taken, although it is neither a file nor a
single step. An environment with an empty variable does not lead there: the variable counts as one
that is not set, and the tool is the built-in command. -/
theorem empty_tool_is_taken :
    (locate Memory.empty none ⟨some ⟨""⟩, none⟩).result = .ok ⟨""⟩ ∧
    (¬∀ (m : Memory) configured env path, (locate m configured env).result = .ok path →
      FileSystem.isFile m path = true ∨ ∃ s, Decides configured env s ∧ NamesCommand s) ∧
    (locate Memory.empty none
      (.ofLookup fun name => if name = "AAPT" then some "" else none)).result = .ok ⟨"aapt"⟩ := by
  have hempty : (locate Memory.empty none ⟨some ⟨""⟩, none⟩).result = .ok ⟨""⟩ := by
    decide +kernel
  refine ⟨hempty, fun hall => ?_, by decide +kernel⟩
  rcases hall _ _ _ _ hempty with hfile | ⟨s, hdecides, hcommand⟩
  · exact absurd hfile (by decide +kernel)
  · -- The variable decides, and it has no step.
    cases hdecides
    cases hcommand with
    | toolVariable hone => exact absurd hone (by decide +kernel)

end Crunch

end AssetPack
