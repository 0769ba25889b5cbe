import AssetPack.Config.Load
import AssetPack.Proofs.Job
import AssetPack.Proofs.Lookup
import Mathlib.Data.List.Forall2

/-!
# Settings but for the tool

Of all settings, the crunch tool is the one that a run may have no use for. Here is what a
configuration file says when the tool is left out (`Config.sansTool`), and that it says the same
whatever tool it names (`parse_retool`), as long as the tool is named by a text: with any other value
in its place the file is refused.

Settings are read by folding over entries, with what was read so far handed on. So the proof is one
about two folds side by side, whose partial settings agree but for the tool at every step.
-/

set_option autoImplicit false

namespace AssetPack.Config

open Toml (Value)

/-- The settings without the crunch tool. -/
def sansTool (c : Config) : Config := { c with crunchTool? := none }

theorem plainExtensions_of_sansTool {c c' : Config} (h : c'.sansTool = c.sansTool) :
    c'.plainExtensions = c.plainExtensions := by
  have hextensions := congrArg Config.extensions h
  change c'.extensions = c.extensions at hextensions
  rw [plainExtensions, plainExtensions, hextensions]

theorem densityTable_of_sansTool {c c' : Config} (h : c'.sansTool = c.sansTool) :
    c'.densityTable = c.densityTable := by
  have hdensities := congrArg Config.densities h
  change c'.densities = c.densities at hdensities
  rw [densityTable, densityTable, hdensities]

theorem oversized?_of_sansTool {c c' : Config} (h : c'.sansTool = c.sansTool) :
    c'.oversized? = c.oversized? := by
  have hdensities := congrArg Config.densities h
  change c'.densities = c.densities at hdensities
  rw [oversized?, oversized?, hdensities]

/-! ## Another tool -/

/-- A text in place of a text. Any other value is no tool and stays. -/
def retext (tool : String) : Value → Value
  | .string _ => .string tool
  | v => v

/-- The settings about images with another tool, where they name one: under its key in a table, or
as the first value of an array. -/
def retoolImages (tool : String) : Value → Value
  | .table kind entries =>
    .table kind (entries.map fun e => if e.1 = "crunch_tool" then (e.1, retext tool e.2) else e)
  | .array (v :: rest) => .array (retext tool v :: rest)
  | v => v

/-- A document's table with another tool, where it names one. -/
def retool (tool : String) (entries : Toml.Entries) : Toml.Entries :=
  entries.map fun e => if e.1 = "images" then (e.1, retoolImages tool e.2) else e

/-! ## Reading side by side -/

/-- Partial settings as they are seen without the tool. -/
def Partial.sansTool (p : Partial) : Config × List String := (p.config.sansTool, p.unknown)

/-- Partial settings that agree but for the tool, or one and the same fault. -/
def Agree (x y : Except ConfigFault Partial) : Prop :=
  x.map Partial.sansTool = y.map Partial.sansTool

theorem agree_ok {p q : Partial} : Agree (.ok p) (.ok q) ↔ p.sansTool = q.sansTool :=
  ⟨Except.ok.inj, congrArg Except.ok⟩

/-- Two folds agree if their steps do. -/
theorem agree_foldlM {α : Type} {step step' : Partial → α → Except ConfigFault Partial}
    {R : α → α → Prop} {as bs : List α} (h : List.Forall₂ R as bs)
    (hstep : ∀ a b p q, R a b → p.sansTool = q.sansTool → Agree (step p a) (step' q b))
    {p q : Partial} (hpq : p.sansTool = q.sansTool) :
    Agree (as.foldlM step p) (bs.foldlM step' q) := by
  induction h generalizing p q with
  | nil => exact agree_ok.mpr hpq
  | @cons a b as bs hab _ ih =>
    have hfirst := hstep a b p q hab hpq
    rw [List.foldlM_cons, List.foldlM_cons]
    cases hp : step p a <;> cases hq : step' q b <;> rw [hp, hq] at hfirst
    case error.error => cases hfirst; rfl
    case ok.ok => exact ih (agree_ok.mp hfirst)
    all_goals cases hfirst

/-- The setter gives settings that agree for the two values. -/
def SetsAlike (set : Setter) (v w : Value) : Prop :=
  ∀ p q : Partial, p.sansTool = q.sansTool → Agree (set p v) (set q w)

theorem setsAlike_note (key : String) (v w : Value) :
    SetsAlike (fun p _ => .ok (p.note key)) v w := by
  intro p q h
  obtain ⟨hconfig, hunknown⟩ := Prod.mk.inj h
  exact agree_ok.mpr (Prod.ext hconfig (congrArg (· ++ [key]) hunknown))

theorem setsAlike_extensions (v : Value) : SetsAlike setExtensions v v := by
  intro p q h
  obtain ⟨hconfig, hunknown⟩ := Prod.mk.inj h
  unfold setExtensions
  cases readExtensions v with
  | error e => rfl
  | ok extensions =>
    refine agree_ok.mpr (Prod.ext ?_ hunknown)
    exact congrArg (fun c : Config => { c with extensions }) hconfig

theorem setsAlike_densities (v : Value) : SetsAlike setDensities v v := by
  intro p q h
  obtain ⟨hconfig, hunknown⟩ := Prod.mk.inj h
  unfold setDensities
  cases readDensities v with
  | error e => rfl
  | ok densities =>
    refine agree_ok.mpr (Prod.ext ?_ hunknown)
    exact congrArg (fun c : Config => { c with densities }) hconfig

/-- The tool itself is left out, so any text does. -/
theorem setsAlike_crunchTool (tool : String) (v : Value) :
    SetsAlike setCrunchTool (retext tool v) v := by
  intro p q h
  cases v with
  | string s => exact agree_ok.mpr h
  | _ => rfl

theorem setsAlike_crunchTool_self (v : Value) : SetsAlike setCrunchTool v v := fun p q h =>
  (setsAlike_crunchTool "" v p p rfl).symm.trans (setsAlike_crunchTool "" v p q h)

/-! ## Groups -/

/-- A group in a table is read alike if every setting in it is. -/
theorem setsAlike_readGroup_table {wanted : Wanted} {setters : List (String × Setter)}
    {kind kind' : Toml.TableKind} {entries entries' : Toml.Entries}
    (h : List.Forall₂ (fun e e' => e.1 = e'.1 ∧
      ∀ set, setters.lookup e.1 = some set → SetsAlike set e.2 e'.2) entries entries') :
    SetsAlike (readGroup wanted setters) (.table kind entries) (.table kind' entries') := by
  intro p q hpq
  refine agree_foldlM h (fun e e' p q ⟨hkey, hset⟩ hpq => ?_) hpq
  obtain ⟨key, v⟩ := e
  obtain ⟨key', v'⟩ := e'
  obtain rfl : key = key' := hkey
  cases hlookup : setters.lookup key with
  | none => simpa only [hlookup] using setsAlike_note key v v' p q hpq
  | some set => simpa only [hlookup] using hset set hlookup p q hpq

/-- So is one in an array. -/
theorem setsAlike_readGroup_array {wanted : Wanted} {setters : List (String × Setter)}
    {items items' : List Value}
    (h : List.Forall₂ (fun s s' => s.1 = s'.1 ∧ SetsAlike s.1.2 s.2 s'.2)
      (setters.zip items) (setters.zip items')) :
    SetsAlike (readGroup wanted setters) (.array items) (.array items') := by
  intro p q hpq
  refine agree_foldlM h (fun s s' p q ⟨hsetter, hset⟩ hpq => ?_) hpq
  obtain ⟨setter, v⟩ := s
  obtain ⟨setter', v'⟩ := s'
  obtain rfl : setter = setter' := hsetter
  exact hset p q hpq

/-- A group whose setters all agree with themselves does so too. -/
theorem setsAlike_readGroup {wanted : Wanted} {setters : List (String × Setter)}
    (hself : ∀ s ∈ setters, ∀ v, SetsAlike s.2 v v) (v : Value) :
    SetsAlike (readGroup wanted setters) v v := by
  have htable : ∀ kind entries,
      SetsAlike (readGroup wanted setters) (.table kind entries) (.table kind entries) :=
    fun kind entries => setsAlike_readGroup_table (List.forall₂_same.mpr fun e _ =>
      ⟨rfl, fun set hlookup => hself _ (mem_of_lookup_eq_some hlookup) e.2⟩)
  have harray : ∀ items, SetsAlike (readGroup wanted setters) (.array items) (.array items) :=
    fun items => setsAlike_readGroup_array (List.forall₂_same.mpr fun s hs =>
      ⟨rfl, hself s.1 (List.of_mem_zip hs).1 s.2⟩)
  -- A point in time is read as a table, and several tables of one name as an array.
  cases v with
  | table kind entries => exact htable kind entries
  | time text => exact htable .header [(timeKey, .string text)]
  | array items => exact harray items
  | tables items => exact harray (items.map (.table .header))
  | _ => exact fun _ _ _ => rfl

theorem setsAlike_shaders (v : Value) : SetsAlike setShaders v v :=
  setsAlike_readGroup (by simpa using setsAlike_extensions) v

/-- The setters for images agree with themselves. -/
theorem setsAlike_of_mem_images : ∀ s ∈ [("crunch_tool", setCrunchTool),
    ("densities", setDensities)], ∀ v, SetsAlike s.2 v v := by
  simpa using ⟨setsAlike_crunchTool_self, setsAlike_densities⟩

/-- The settings about images are read alike, whatever tool they name. -/
theorem setsAlike_images (tool : String) (v : Value) :
    SetsAlike setImages (retoolImages tool v) v := by
  cases v with
  | table kind entries =>
    refine setsAlike_readGroup_table (List.forall₂_map_left_iff.mpr (List.forall₂_same.mpr ?_))
    rintro ⟨key, v⟩ -
    by_cases hkey : key = "crunch_tool"
    · subst hkey
      refine ⟨rfl, fun set hset => ?_⟩
      obtain rfl : setCrunchTool = set := by simpa using hset
      exact setsAlike_crunchTool tool v
    · simp only [hkey, if_false]
      exact ⟨trivial, fun set hset => setsAlike_of_mem_images _ (mem_of_lookup_eq_some hset) v⟩
  | array items =>
    cases items with
    | nil => exact setsAlike_readGroup setsAlike_of_mem_images _
    | cons v rest =>
      refine setsAlike_readGroup_array (.cons ⟨rfl, setsAlike_crunchTool tool v⟩ ?_)
      refine List.forall₂_same.mpr fun s hs => ⟨rfl, ?_⟩
      exact setsAlike_of_mem_images s.1 (List.mem_cons_of_mem _ (List.of_mem_zip hs).1) s.2
  | _ => exact setsAlike_readGroup setsAlike_of_mem_images _

/-! ## Documents -/

/-- The settings in a document's table are read alike, whatever tool it names. -/
theorem agree_ofEntries_retool (tool : String) (entries : Toml.Entries) :
    Agree (ofEntries (retool tool entries)) (ofEntries entries) := by
  have hentries : List.Forall₂
      (fun e' e => e' = if e.1 = "images" then (e.1, retoolImages tool e.2) else e)
      (retool tool entries) entries :=
    List.forall₂_map_left_iff.mpr (List.forall₂_same.mpr fun _ _ => rfl)
  refine agree_foldlM hentries (fun e' e p q he hpq => ?_) rfl
  obtain ⟨key, v⟩ := e
  subst he
  by_cases himages : key = "images"
  · subst himages
    exact setsAlike_images tool v p q hpq
  · simp only [himages, if_false]
    split
    · exact setsAlike_shaders v p q hpq
    · exact setsAlike_note key v v p q hpq

/-- **Whatever tool a configuration file names, it says the same otherwise**, or is refused for the
same reason. -/
theorem parse_retool (file : Path) {text text' : List Char} {tool : String} {entries : Toml.Entries}
    (h : Toml.parse? text = some entries) (h' : Toml.parse? text' = some (retool tool entries)) :
    (parse file (String.ofList text')).map (fun p => p.1.sansTool) =
      (parse file (String.ofList text)).map fun p => p.1.sansTool := by
  have hagree := agree_ofEntries_retool tool entries
  simp only [parse, String.toList_ofList, h, h']
  cases hp : ofEntries (retool tool entries) <;> cases hq : ofEntries entries <;>
    rw [hp, hq] at hagree
  case error.error =>
    cases hagree
    rfl
  case ok.ok p q =>
    have hconfig : p.config.sansTool = q.config.sansTool := (Prod.mk.inj (agree_ok.mp hagree)).1
    simp only [Except.mapError, Except.ok_bind, oversized?_of_sansTool hconfig]
    cases q.config.oversized? with
    | some d => rfl
    | none => exact congrArg Except.ok hconfig
  all_goals cases hagree

/-- The second state has the settings file of the first one, but with another tool. -/
structure Retooled {σ : Type} [FileSystem σ] (dir : Path) (fs fs' : σ) : Prop where
  isThere : FileSystem.isThere fs (dir.push configFileName) = true
  isThere' : FileSystem.isThere fs' (dir.push configFileName) = true
  entries : ∃ text text' entries tool,
    FileSystem.readText fs (dir.push configFileName) = .ok text ∧
    FileSystem.readText fs' (dir.push configFileName) = .ok text' ∧
    Toml.parse? text = some entries ∧ Toml.parse? text' = some (retool tool entries)

theorem Retooled.load {σ : Type} [FileSystem σ] {dir : Path} {fs fs' : σ}
    (h : Retooled dir fs fs') :
    (Config.load fs' dir).map (fun p => p.1.sansTool) =
      (Config.load fs dir).map fun p => p.1.sansTool := by
  obtain ⟨text, text', entries, tool, hread, hread', hparse, hparse'⟩ := h.entries
  have hagree := parse_retool (dir.push configFileName) hparse hparse'
  simp only [Config.load, h.isThere, h.isThere', hread, hread']
  change ((parse _ (String.ofList text')).mapError RunError.config).map _ =
    ((parse _ (String.ofList text)).mapError RunError.config).map _
  rw [Except.map_mapError, Except.map_mapError, hagree]

end AssetPack.Config
