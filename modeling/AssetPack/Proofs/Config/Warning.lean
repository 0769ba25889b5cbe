import AssetPack.Config.Read
import AssetPack.Proofs.Job
import AssetPack.Proofs.Text.EditDistance
import AssetPack.Proofs.Toml.Written

/-!
# Where warnings point

A warning is about a key that means nothing. Here is which keys these are, as paths of the document
(`Config.unknownKeys`), and that there is one warning for each of them, in this order.

A warning points at its key if it names the key, gives a line on which the key is written and
suggests a known key for it (`PointsAt`). The suggestion is always right for the key that the
warning names. But the key is named by what is behind the last dot in it, and the line is the first
one that has these characters in it anywhere: in a comment, in a value, in a longer key. So a
warning points at its key just if the key has no dot, and the first line with its characters is one
on which it is written (`FoundFirst`).
-/

set_option autoImplicit false

namespace AssetPack

open Text (Edits Utf8.encode)
open Toml (Value HasPath WrittenOn)

namespace ConfigWarning

variable {key : String} {text needle s : List Char} {n : Nat}

/-! ## Lines -/

theorem contains_iff : contains needle s = true ↔ needle <:+: s := by
  induction s with
  | nil => rw [contains, List.isEmpty_iff, List.infix_nil]
  | cons c s ih =>
    rw [contains, Bool.or_eq_true, List.isPrefixOf_iff_prefix, ih, List.infix_cons_iff]

/-- The line is the first one that has the key's characters in it. -/
def FirstWith (text : List Char) (key : String) (n : Nat) : Prop :=
  ∃ before line after, Text.records text = before ++ line :: after ∧ n = before.length + 1 ∧
    key.toList <:+: line ∧ ∀ earlier ∈ before, ¬ key.toList <:+: earlier

theorem findIdx?_eq_some_iff_append {α : Type} {p : α → Bool} {as : List α} :
    as.findIdx? p = some n ↔ ∃ before a after, as = before ++ a :: after ∧ n = before.length ∧
      p a ∧ ∀ b ∈ before, ¬ p b := by
  constructor
  · intro h
    obtain ⟨hn, hp, hbefore⟩ := List.findIdx?_eq_some_iff_getElem.mp h
    refine ⟨as.take n, as[n], as.drop (n + 1), by simp, by simp; omega, hp, fun b hb => ?_⟩
    obtain ⟨i, hi, rfl⟩ := List.mem_take_iff_getElem.mp hb
    exact hbefore i (by omega)
  · rintro ⟨before, a, after, rfl, rfl, hp, hbefore⟩
    have hnone : before.findIdx? p = none :=
      List.findIdx?_eq_none_iff.mpr fun b hb => Bool.eq_false_iff.mpr (hbefore b hb)
    simp [List.findIdx?_append, hnone, List.findIdx?_cons, hp]

theorem lineOf?_eq_some : lineOf? text key = some n ↔ FirstWith text key n := by
  rw [lineOf?, Option.map_eq_some_iff]
  simp only [findIdx?_eq_some_iff_append, contains_iff]
  constructor
  · rintro ⟨_, ⟨before, line, after, hlines, rfl, hin, hbefore⟩, rfl⟩
    exact ⟨before, line, after, hlines, rfl, hin, hbefore⟩
  · rintro ⟨before, line, after, hlines, rfl, hin, hbefore⟩
    exact ⟨_, ⟨before, line, after, hlines, rfl, hin, hbefore⟩, rfl⟩

/-! ## Suggestions -/

/-- The one key becomes the other by so many changes of single bytes. -/
def Away (n : Nat) (a b : String) : Prop := Edits n (Utf8.encode a.toList) (Utf8.encode b.toList)

theorem distance_le_iff {a b : String} : distance a b ≤ n ↔ ∃ m ≤ n, Away m a b :=
  Text.editDistance_le_iff

theorem nearest_mem (key first : String) (rest : List String) :
    nearest key first rest ∈ first :: rest := by
  induction rest generalizing first with
  | nil => exact List.mem_cons_self
  | cons k rest ih =>
    have hrest := ih (if distance key k < distance key first then k else first)
    rcases List.mem_cons.mp hrest with h | h
    · rw [nearest, h]
      split <;> simp
    · exact List.mem_cons_of_mem _ (List.mem_cons_of_mem _ h)

theorem distance_nearest_le (key first : String) (rest : List String) :
    ∀ k ∈ first :: rest, distance key (nearest key first rest) ≤ distance key k := by
  induction rest generalizing first with
  | nil =>
    intro k hk
    cases List.mem_singleton.mp hk
    exact Nat.le_refl _
  | cons k rest ih =>
    intro k' hk'
    rw [nearest]
    have hbetter := ih (if distance key k < distance key first then k else first)
    have hleast := hbetter _ List.mem_cons_self
    rcases List.mem_cons.mp hk' with rfl | hk'
    · refine Nat.le_trans hleast ?_
      split
      · exact Nat.le_of_lt ‹_›
      · exact Nat.le_refl _
    · rcases List.mem_cons.mp hk' with rfl | hk'
      · refine Nat.le_trans hleast ?_
        split
        · exact Nat.le_refl _
        · exact Nat.le_of_not_lt ‹_›
      · exact hbetter k' (List.mem_cons_of_mem _ hk')

/-- What is suggested for a key: a known key that is at most two changes away, or nothing if there
is none. -/
inductive Suggests (key : String) : Option String → Prop
  | known {s : String} {n : Nat} (mem : s ∈ knownKeys) (near : n ≤ 2) (away : Away n key s) :
      Suggests key (some s)
  | none (far : ∀ s ∈ knownKeys, ∀ n ≤ 2, ¬ Away n key s) : Suggests key none

theorem suggests_suggest? (key : String) : Suggests key (suggest? key) := by
  have hmem := nearest_mem key "shaders" ["extensions", "images", "crunch_tool", "densities"]
  have hleast :=
    distance_nearest_le key "shaders" ["extensions", "images", "crunch_tool", "densities"]
  simp only [suggest?, knownKeys]
  split
  · rename_i hnear
    obtain ⟨n, hn, haway⟩ := distance_le_iff.mp hnear
    exact .known hmem hn haway
  · rename_i hfar
    refine .none fun s hs n hn haway => hfar ?_
    exact Nat.le_trans (hleast s hs) (distance_le_iff.mpr ⟨n, hn, haway⟩)

/-! ## Names -/

theorem ofKey_key (file : Path) (text : List Char) (key : String) :
    (ofKey file text key).key = String.ofList ((Text.split '.' key.toList).getLastD []) := rfl

theorem ofKey_line? (file : Path) (text : List Char) (key : String) :
    (ofKey file text key).line? = lineOf? text (ofKey file text key).key := rfl

theorem ofKey_suggestion? (file : Path) (text : List Char) (key : String) :
    (ofKey file text key).suggestion? = suggest? (ofKey file text key).key := by
  dsimp only [ofKey]

/-- A key is named whole just if it has no dot. -/
theorem ofKey_key_eq_iff (file : Path) (text : List Char) (key : String) :
    (ofKey file text key).key = key ↔ '.' ∉ key.toList := by
  rw [ofKey_key]
  constructor
  · intro h
    have hlast : (Text.split '.' key.toList).getLastD [] = key.toList :=
      String.toList_ofList.symm.trans (congrArg String.toList h)
    have hmem : (Text.split '.' key.toList).getLastD [] ∈ Text.split '.' key.toList := by
      rw [List.getLastD_eq_getLast?, List.getLast?_eq_some_getLast (Text.split_ne_nil _ _)]
      exact List.getLast_mem _
    rw [hlast] at hmem
    exact Text.sep_notMem_of_mem_split hmem
  · intro h
    rw [Text.split_of_notMem h]
    exact String.ofList_toList

end ConfigWarning

namespace Config

variable {p q : Partial} {v : Value} {entries : Toml.Entries}

/-! ## Keys that mean nothing -/

/-- The keys of a table but for those that are known. -/
def keysBut (known : List String) (v : Value) : List String :=
  (((pairs? v).getD []).map Prod.fst).filter fun key => key ∉ known

/-- The keys that mean nothing at one key of a document and in its value, as paths. -/
def unknownAt (key : String) (v : Value) : List (List String) :=
  if key = "shaders" then (keysBut ["extensions"] v).map fun last => [key, last]
  else if key = "images" then (keysBut ["crunch_tool", "densities"] v).map fun last => [key, last]
  else [[key]]

/-- The keys of a document that mean nothing, as paths, in the order of the document. -/
def unknownKeys (entries : Toml.Entries) : List (List String) :=
  entries.flatMap fun e => unknownAt e.1 e.2

/-- The last key of a path. -/
def lastOf (path : List String) : String := path.getLastD ""

/-- Where each step notes some keys, all of them are noted in turn. -/
theorem unknown_foldlM {α : Type} {step : Partial → α → Except ConfigFault Partial}
    {noted : α → List String}
    (hstep : ∀ p a q, step p a = .ok q → q.unknown = p.unknown ++ noted a) {as : List α}
    (h : as.foldlM step p = .ok q) : q.unknown = p.unknown ++ as.flatMap noted := by
  induction as generalizing p with
  | nil =>
    cases h
    exact (List.append_nil _).symm
  | cons a as ih =>
    rw [List.foldlM_cons] at h
    obtain ⟨next, hnext, h⟩ := Except.bind_eq_ok.mp h
    rw [ih h, hstep p a next hnext, List.flatMap_cons, List.append_assoc]

/-- The setter notes no key. -/
def NotesNothing (set : Setter) : Prop := ∀ p v q, set p v = .ok q → q.unknown = p.unknown

/-- So it is with one that reads its value and puts it in its place. -/
theorem notesNothing_of_put {α : Type} {read : Value → Except ConfigFault α}
    {put : Partial → α → Partial} (h : ∀ p a, (put p a).unknown = p.unknown) :
    NotesNothing fun p v => do return put p (← read v) := by
  intro p v q hq
  obtain ⟨a, -, hq⟩ := Except.bind_eq_ok.mp hq
  cases hq
  exact h p a

theorem notesNothing_extensions : NotesNothing setExtensions := notesNothing_of_put fun _ _ => rfl

theorem notesNothing_crunchTool : NotesNothing setCrunchTool := notesNothing_of_put fun _ _ => rfl

theorem notesNothing_densities : NotesNothing setDensities := notesNothing_of_put fun _ _ => rfl

theorem flatMap_unless_known (known : List String) (es : List (String × Value)) :
    (es.flatMap fun e => if e.1 ∈ known then [] else [e.1]) =
      (es.map Prod.fst).filter fun key => key ∉ known := by
  induction es with
  | nil => rfl
  | cons e es ih =>
    rw [List.flatMap_cons, List.map_cons, ih]
    by_cases h : e.1 ∈ known <;> simp [h]

/-- A group notes the keys of its table that it has no setter for. -/
theorem unknown_readGroup {wanted : Wanted} {setters : List (String × Setter)}
    (hsetters : ∀ s ∈ setters, NotesNothing s.2) (h : readGroup wanted setters p v = .ok q) :
    q.unknown = p.unknown ++ keysBut (setters.map Prod.fst) v := by
  unfold readGroup at h
  split at h
  · rename_i es hpairs
    rw [keysBut, hpairs, Option.getD_some, ← flatMap_unless_known]
    refine unknown_foldlM ?_ h
    rintro p ⟨key, v⟩ q h
    dsimp only at h ⊢
    split at h
    · rename_i set hset
      have hmem := mem_of_lookup_eq_some hset
      rw [if_pos (List.mem_map_of_mem hmem), List.append_nil]
      exact hsetters _ hmem p v q h
    · rename_i hnone
      cases h
      rw [if_neg]
      · rfl
      · rintro hmem
        obtain ⟨s, hs, rfl⟩ := List.mem_map.mp hmem
        simpa using List.lookup_eq_none_iff.mp hnone s hs
  · rename_i items hpairs _
    rw [keysBut, hpairs, Option.getD_none, List.map_nil, List.filter_nil, List.append_nil]
    refine Except.of_foldlM_eq_ok (P := fun r : Partial => r.unknown = p.unknown) ?_ rfl h
    intro r s hs q hr hq
    exact (hsetters s.1 (List.of_mem_zip hs).1 r s.2 q hq).trans hr
  · cases h

/-- What is noted while a document is read are its keys that mean nothing. -/
theorem unknown_ofEntries (h : ofEntries entries = .ok p) :
    p.unknown = (unknownKeys entries).map lastOf := by
  rw [unknownKeys, List.map_flatMap]
  refine (unknown_foldlM ?_ h).trans (List.nil_append _)
  rintro p ⟨key, v⟩ q h
  have hlast : ∀ keys : List String, (keys.map fun last => [key, last]).map lastOf = keys := by
    intro keys
    rw [List.map_map]
    exact List.map_id keys
  dsimp only [unknownAt] at h ⊢
  by_cases hshaders : key = "shaders"
  · rw [if_pos hshaders] at h ⊢
    rw [hlast]
    exact unknown_readGroup (by simpa using notesNothing_extensions) h
  · by_cases himages : key = "images"
    · rw [if_neg hshaders, if_pos himages] at h ⊢
      rw [hlast]
      exact unknown_readGroup
        (by simpa using ⟨notesNothing_crunchTool, notesNothing_densities⟩) h
    · rw [if_neg hshaders, if_neg himages] at h ⊢
      cases h
      rfl

/-- The path leads to the key that a point in time has as a table. No document spells it out. -/
def IsTimeKey (entries : Toml.Entries) (path : List String) : Prop :=
  ∃ group moment, (group, Value.time moment) ∈ entries ∧ path = [group, timeKey]

/-- Such a key stands in the document, but for the one that a point in time has. -/
theorem hasPath_or_isTimeKey {path : List String} (h : path ∈ unknownKeys entries) :
    HasPath path entries ∨ IsTimeKey entries path := by
  obtain ⟨⟨key, v⟩, hmem, hpath⟩ := List.mem_flatMap.mp h
  have hkeys : ∀ {known : List String}, path ∈ (keysBut known v).map (fun last => [key, last]) →
      HasPath path entries ∨ IsTimeKey entries path := by
    intro known hpath
    obtain ⟨last, hlast, rfl⟩ := List.mem_map.mp hpath
    obtain ⟨⟨last, w⟩, hpair, rfl⟩ := List.mem_map.mp (List.mem_filter.mp hlast).1
    cases v with
    | table kind inner => exact .inl (.inside hmem (.table kind inner) (.key hpair))
    | time moment =>
      cases List.mem_singleton.mp hpair
      exact .inr ⟨key, moment, hmem, rfl⟩
    | _ => cases hpair
  dsimp only [unknownAt] at hpath
  split at hpath
  · exact hkeys hpath
  · split at hpath
    · exact hkeys hpath
    · cases List.mem_singleton.mp hpath
      exact .inl (.key hmem)

/-- What an accepted file says, and what is noted about it. -/
theorem exists_of_parse {file : Path} {text : String} {c : Config} {warnings : List ConfigWarning}
    (h : parse file text = .ok (c, warnings)) :
    ∃ entries, Toml.parse? text.toList = some entries ∧
      warnings = ((unknownKeys entries).map lastOf).map (ConfigWarning.ofKey file text.toList) := by
  unfold parse at h
  split at h
  · cases h
  · rename_i entries hentries
    obtain ⟨p, hp, h⟩ := Except.bind_eq_ok.mp h
    split at h
    · cases h
    · cases h
      rw [unknown_ofEntries (Except.mapError_eq_ok.mp hp)]
      exact ⟨entries, hentries, rfl⟩

/-! ## Warnings and their keys -/

/-- The warning names the key, gives a line on which it is written, and suggests a known key that is
near to it, if there is one. -/
structure PointsAt (text : List Char) (path : List String) (w : ConfigWarning) : Prop where
  key : w.key = lastOf path
  line : ∃ n, w.line? = some n ∧ WrittenOn text path n
  suggestion : ConfigWarning.Suggests (lastOf path) w.suggestion?

/-- The key has no dot, and the first line with its characters is one on which it is written. -/
structure FoundFirst (text : List Char) (path : List String) : Prop where
  undotted : '.' ∉ (lastOf path).toList
  first : ∃ n, ConfigWarning.FirstWith text (lastOf path) n ∧ WrittenOn text path n

/-- What holds of the warning for a key of an accepted file. -/
structure Reported (file : Path) (text : List Char) (entries : Toml.Entries) (path : List String)
    (w : ConfigWarning) : Prop where
  file : w.file = file
  suggestion : ConfigWarning.Suggests w.key w.suggestion?
  written : (∃ n, WrittenOn text path n) ∨ IsTimeKey entries path
  points : PointsAt text path w ↔ FoundFirst text path

theorem pointsAt_iff (file : Path) (text : List Char) (path : List String) :
    PointsAt text path (ConfigWarning.ofKey file text (lastOf path)) ↔ FoundFirst text path := by
  constructor
  · rintro ⟨hkey, ⟨n, hline, hn⟩, -⟩
    rw [ConfigWarning.ofKey_line?, hkey, ConfigWarning.lineOf?_eq_some] at hline
    exact ⟨(ConfigWarning.ofKey_key_eq_iff file text (lastOf path)).mp hkey, n, hline, hn⟩
  · rintro ⟨hundotted, n, hfirst, hn⟩
    have hkey := (ConfigWarning.ofKey_key_eq_iff file text (lastOf path)).mpr hundotted
    refine ⟨hkey, ⟨n, ?_, hn⟩, ?_⟩
    · rw [ConfigWarning.ofKey_line?, hkey]
      exact ConfigWarning.lineOf?_eq_some.mpr hfirst
    · rw [ConfigWarning.ofKey_suggestion?, hkey]
      exact ConfigWarning.suggests_suggest? (lastOf path)

theorem reported_ofKey (file : Path) {text : List Char} {path : List String}
    (hentries : Toml.parse? text = some entries) (hpath : path ∈ unknownKeys entries) :
    Reported file text entries path (ConfigWarning.ofKey file text (lastOf path)) := by
  refine ⟨rfl, ?_, ?_, pointsAt_iff file text path⟩
  · rw [ConfigWarning.ofKey_suggestion?]
    exact ConfigWarning.suggests_suggest? _
  · exact (hasPath_or_isTimeKey hpath).imp_left (Toml.exists_writtenOn hentries)

/-- **There is one warning for each key that means nothing, in order, and it points at the key just
if the key has no dot and the first line with its characters is one on which it is written.** What
is suggested is always right for the key that the warning names. -/
theorem warnings_point_iff {file : Path} {text : String} {c : Config}
    {warnings : List ConfigWarning} (h : parse file text = .ok (c, warnings)) :
    ∃ entries, Toml.parse? text.toList = some entries ∧
      List.Forall₂ (Reported file text.toList entries) (unknownKeys entries) warnings := by
  obtain ⟨entries, hentries, rfl⟩ := exists_of_parse h
  refine ⟨entries, hentries, ?_⟩
  rw [List.map_map, List.forall₂_map_right_iff]
  exact List.forall₂_same.mpr fun path hpath => reported_ofKey file hentries hpath

/-! ### A key that is found and a key that is not -/

/-- Settings with a slip in a key. -/
def misspelled : String := "[images]\ncrunch_tol = \"aapt\"\n"

/-- The key of a line stands in the first line that has its characters. -/
theorem warnings_point_misspelled :
    parse ⟨"assets/assetc.toml"⟩ misspelled = .ok (.default,
      [⟨"crunch_tol", ⟨"assets/assetc.toml"⟩, some 2, some "crunch_tool"⟩]) ∧
    (Toml.parse? misspelled.toList).map unknownKeys = some [["images", "crunch_tol"]] ∧
    PointsAt misspelled.toList ["images", "crunch_tol"]
      ⟨"crunch_tol", ⟨"assets/assetc.toml"⟩, some 2, some "crunch_tool"⟩ := by
  have hparse : parse ⟨"assets/assetc.toml"⟩ misspelled = .ok (.default,
      [⟨"crunch_tol", ⟨"assets/assetc.toml"⟩, some 2, some "crunch_tool"⟩]) := by
    decide +kernel
  have hkeys : (Toml.parse? misspelled.toList).map unknownKeys =
      some [["images", "crunch_tol"]] := by
    decide +kernel
  have houtlines : Toml.outlines? misspelled.toList = some
      [(misspelled.toList, false, ["images"]),
        ("crunch_tol = \"aapt\"\n".toList, true, ["crunch_tol"])] := by
    decide +kernel
  have hwritten : WrittenOn misspelled.toList ["images", "crunch_tol"] 2 := by
    obtain ⟨st, houtline, hstands⟩ := Toml.exists_standsAt_iff.mpr ⟨[_], [], houtlines, rfl⟩
    refine .statement hstands (Toml.Statement.names_iff_outline.mpr ?_)
      ⟨"[images]\n".toList, by decide, by decide⟩
    rw [houtline]
    exact ⟨["crunch_tol"], by simp, List.prefix_rfl, rfl⟩
  refine ⟨hparse, hkeys, ?_⟩
  obtain ⟨entries, hentries, hall⟩ := warnings_point_iff hparse
  rw [hentries, Option.map_some, Option.some.injEq] at hkeys
  rw [hkeys] at hall
  cases hall with
  | cons hreported _ =>
    exact hreported.points.mpr
      ⟨by decide, 2, ConfigWarning.lineOf?_eq_some.mp (by decide +kernel), hwritten⟩

/-- Settings with a key that a comment above it mentions. -/
def commented : String := "# color is not needed\ncolor = true\n"

/-- The warning for the key of the second line gives the first one. -/
theorem not_pointsAt_commented :
    parse ⟨"assetc.toml"⟩ commented = .ok (.default,
      [⟨"color", ⟨"assetc.toml"⟩, some 1, none⟩]) ∧
    (Toml.parse? commented.toList).map unknownKeys = some [["color"]] ∧
    (∀ n, WrittenOn commented.toList ["color"] n ↔ n = 2) ∧
    ¬ PointsAt commented.toList ["color"] ⟨"color", ⟨"assetc.toml"⟩, some 1, none⟩ := by
  have houtlines : Toml.outlines? commented.toList = some
      [("color = true\n".toList, true, ["color"])] := by
    decide +kernel
  have hbegins : ∀ n, Toml.BeginsOn commented.toList "color = true\n".toList n ↔ n = 2 :=
    Toml.beginsOn_append "# color is not needed\n".toList "color = true\n".toList
  have hwritten : ∀ n, WrittenOn commented.toList ["color"] n ↔ n = 2 := by
    intro n
    constructor
    · intro h
      generalize hpath : ["color"] = path at h
      cases h with
      | statement stands _ on =>
        obtain ⟨-, -, rfl⟩ := stands.of_single houtlines
        exact (hbegins n).mp on
      | @inside _ keys key _ _ _ _ _ q _ stands _ rest _ =>
        -- the keys of the pair are the whole path, and so there is nothing in its value
        obtain ⟨rfl, houtline, -⟩ := stands.of_single houtlines
        have hkeys : keys ++ [key] = ["color"] := congrArg Prod.snd houtline
        have hq : [key] = key :: q := List.append_cancel_left (hkeys.trans hpath)
        exact absurd (List.cons.inj hq).2.symm rest.ne_nil
    · rintro rfl
      obtain ⟨st, houtline, hstands⟩ := Toml.exists_standsAt_iff.mpr ⟨[], [], houtlines, rfl⟩
      refine .statement hstands (Toml.Statement.names_iff_outline.mpr ?_) ((hbegins 2).mpr rfl)
      rw [houtline]
      exact ⟨["color"], by simp, List.prefix_rfl, rfl⟩
  refine ⟨by decide +kernel, by decide +kernel, hwritten, ?_⟩
  rintro ⟨-, ⟨n, hline, hn⟩, -⟩
  cases hline
  cases (hwritten 1).mp hn

end Config

end AssetPack
