import AssetPack.Proofs.Job
import AssetPack.Proofs.Lookup
import AssetPack.Toml.Document

/-!
# Paths of a document

A path leads through tables to a key (`HasPath`). Statements are put together by changing a table at
the end of a path, and such a change adds nothing but what the change itself adds there, and what
stands on the way (`hasPath_updateAt`).

A document under construction holds its tables in two places, what is finished and what the last
header opened, and tables are moved from the one to the other. `Draft.Within` says of both that all
paths are in a given set; a statement keeps it if the paths that the statement itself adds are in
the set (`Draft.Within.add`). So every path of a document comes from one of its statements
(`of_hasPath`).
-/

set_option autoImplicit false

namespace AssetPack.Toml

variable {es es' inner : Entries} {key last : String} {v : Value} {p q path : List String}

/-- The value is a table with the entries, or is several tables and this is one of them. -/
inductive Value.Holds : Value → Entries → Prop
  | table (kind : TableKind) (inner : Entries) : Holds (.table kind inner) inner
  | tables {items : List Entries} {inner : Entries} (mem : inner ∈ items) :
      Holds (.tables items) inner

/-- The entries have the key at the end of the path. -/
inductive HasPath : List String → Entries → Prop
  | key {key : String} {v : Value} {es : Entries} (mem : (key, v) ∈ es) : HasPath [key] es
  | inside {key : String} {v : Value} {inner es : Entries} {p : List String} (mem : (key, v) ∈ es)
      (holds : v.Holds inner) (rest : HasPath p inner) : HasPath (key :: p) es

/-- The path leads on into the value. -/
def InValue (p : List String) (v : Value) : Prop := ∃ inner, v.Holds inner ∧ HasPath p inner

namespace HasPath

theorem ne_nil (h : HasPath p es) : p ≠ [] := by
  cases h <;> exact List.cons_ne_nil _ _

theorem not_nil (p : List String) : ¬ HasPath p [] := by
  intro h
  cases h with
  | key mem => cases mem
  | inside mem _ _ => cases mem

theorem of_subset (h : HasPath p es) (hsub : ∀ e ∈ es, e ∈ es') : HasPath p es' := by
  cases h with
  | key mem => exact .key (hsub _ mem)
  | inside mem holds rest => exact .inside (hsub _ mem) holds rest

/-- With an entry more there are the paths that begin with it. -/
theorem of_append (h : HasPath p (es ++ [(key, v)])) :
    HasPath p es ∨ p = [key] ∨ ∃ q, p = key :: q ∧ InValue q v := by
  cases h with
  | key mem =>
    rcases List.mem_append.mp mem with mem | mem
    · exact .inl (.key mem)
    · cases List.mem_singleton.mp mem
      exact .inr (.inl rfl)
  | inside mem holds rest =>
    rcases List.mem_append.mp mem with mem | mem
    · exact .inl (.inside mem holds rest)
    · cases List.mem_singleton.mp mem
      exact .inr (.inr ⟨_, rfl, _, holds, rest⟩)

/-- So there are with another value for a key. -/
theorem of_set (h : HasPath p (es.set key v)) (hkey : HasPath [key] es) :
    HasPath p es ∨ ∃ q, p = key :: q ∧ InValue q v := by
  have hmem : ∀ {k : String} {w : Value}, (k, w) ∈ es.set key v →
      (k, w) ∈ es ∨ k = key ∧ w = v := by
    intro k w hkw
    obtain ⟨e, he, heq⟩ := List.mem_map.mp hkw
    split at heq
    · cases heq
      exact .inr ⟨rfl, rfl⟩
    · exact .inl (heq ▸ he)
  cases h with
  | key mem =>
    rcases hmem mem with mem | ⟨rfl, rfl⟩
    · exact .inl (.key mem)
    · exact .inl hkey
  | inside mem holds rest =>
    rcases hmem mem with mem | ⟨rfl, rfl⟩
    · exact .inl (.inside mem holds rest)
    · exact .inr ⟨_, rfl, _, holds, rest⟩

theorem of_lookup (h : es.lookup key = some v) : HasPath [key] es :=
  .key (mem_of_lookup_eq_some h)

theorem of_lookup_inside (h : es.lookup key = some v) (hq : InValue q v) :
    HasPath (key :: q) es := by
  obtain ⟨inner, holds, rest⟩ := hq
  exact .inside (mem_of_lookup_eq_some h) holds rest

end HasPath

theorem not_inValue_tables_nil (p : List String) : ¬ InValue p (.tables []) := by
  rintro ⟨inner, holds, -⟩
  cases holds with
  | tables mem => cases mem

/-! ## Changes at the end of a path -/

section UpdateAt

variable {α : Type} {f : TableKind → Entries → Option (Entries × α)} {R : List String → Prop}
  {dotted : Bool} {kind : TableKind} {a : α}

/-- A change of a table adds no paths but some. -/
def AddsOnly (R : List String → Prop) (f : TableKind → Entries → Option (Entries × α)) : Prop :=
  ∀ kind es es' a, f kind es = some (es', a) → ∀ q, HasPath q es' → HasPath q es ∨ R q

/-- Behind the path of a change stand the paths that the change adds; all others are on the way to
it, or were there. -/
theorem hasPath_updateAt (hf : AddsOnly R f) (h : updateAt dotted f path kind es = some (es', a))
    (hp : HasPath p es') : HasPath p es ∨ p <+: path ∨ ∃ q, p = path ++ q ∧ R q := by
  induction path generalizing kind es es' p with
  | nil => exact (hf kind es es' a h p hp).imp_right fun hr => .inr ⟨p, rfl, hr⟩
  | cons k path ih =>
    -- What the change does further inside is seen behind the first key.
    have hbehind : ∀ {inner : Entries} {q : List String},
        (HasPath q inner → HasPath (k :: q) es) →
        (HasPath q inner ∨ q <+: path ∨ ∃ r, q = path ++ r ∧ R r) →
        HasPath (k :: q) es ∨ k :: q <+: k :: path ∨ ∃ r, k :: q = k :: path ++ r ∧ R r := by
      rintro inner q hold (hq | hq | ⟨r, rfl, hr⟩)
      · exact .inl (hold hq)
      · exact .inr (.inl (List.cons_prefix_cons.mpr ⟨rfl, hq⟩))
      · exact .inr (.inr ⟨r, rfl, hr⟩)
    rw [updateAt] at h
    split at h
    · obtain ⟨⟨changed, b⟩, hchanged, h⟩ := Option.bind_eq_some_iff.mp h
      cases h
      rcases hp.of_append with hp | rfl | ⟨q, rfl, _, ⟨⟩, hq⟩
      · exact .inl hp
      · exact .inr (.inl (List.cons_prefix_cons.mpr ⟨rfl, List.nil_prefix⟩))
      · exact hbehind (fun hnil => absurd hnil (HasPath.not_nil q)) (ih hchanged hq)
    · rename_i kind' inner hlookup
      split at h
      · cases h
      · obtain ⟨⟨changed, b⟩, hchanged, h⟩ := Option.bind_eq_some_iff.mp h
        cases h
        rcases hp.of_set (.of_lookup hlookup) with hp | ⟨q, rfl, _, ⟨⟩, hq⟩
        · exact .inl hp
        · exact hbehind (fun hold => .of_lookup_inside hlookup ⟨_, .table _ _, hold⟩)
            (ih hchanged hq)
    · rename_i items hlookup
      obtain ⟨latest, hlatest, h⟩ := Option.bind_eq_some_iff.mp h
      obtain ⟨⟨changed, b⟩, hchanged, h⟩ := Option.bind_eq_some_iff.mp h
      cases h
      rcases hp.of_set (.of_lookup hlookup) with hp | ⟨q, rfl, _, holds, hq⟩
      · exact .inl hp
      · cases holds with
        | tables mem =>
          rcases List.mem_append.mp mem with mem | mem
          · have hold := (List.dropLast_sublist items).mem mem
            exact .inl (.of_lookup_inside hlookup ⟨_, .tables hold, hq⟩)
          · cases List.mem_singleton.mp mem
            have hold := List.mem_of_getLast? hlatest
            exact hbehind (fun hq => .of_lookup_inside hlookup ⟨_, .tables hold, hq⟩)
              (ih hchanged hq)
    · cases h

/-- What a change takes from its table was there, at the end of the path. -/
theorem hasPath_taken {a : Entries} {f : TableKind → Entries → Option (Entries × Entries)}
    (hf : ∀ kind es es' a, f kind es = some (es', a) → ∀ q, HasPath q a → HasPath (last :: q) es)
    (h : updateAt dotted f path kind es = some (es', a)) (hq : HasPath q a) :
    HasPath (path ++ last :: q) es := by
  induction path generalizing kind es es' with
  | nil => exact hf kind es es' a h q hq
  | cons k path ih =>
    rw [updateAt] at h
    split at h
    · obtain ⟨⟨changed, b⟩, hchanged, h⟩ := Option.bind_eq_some_iff.mp h
      cases h
      exact absurd (ih hchanged) (HasPath.not_nil _)
    · rename_i kind' inner hlookup
      split at h
      · cases h
      · obtain ⟨⟨changed, b⟩, hchanged, h⟩ := Option.bind_eq_some_iff.mp h
        cases h
        exact .of_lookup_inside hlookup ⟨_, .table _ _, ih hchanged⟩
    · rename_i items hlookup
      obtain ⟨latest, hlatest, h⟩ := Option.bind_eq_some_iff.mp h
      obtain ⟨⟨changed, b⟩, hchanged, h⟩ := Option.bind_eq_some_iff.mp h
      cases h
      have hold := List.mem_of_getLast? hlatest
      exact .of_lookup_inside hlookup ⟨_, .tables hold, ih hchanged⟩
    · cases h

end UpdateAt

/-- A pair adds its key with what is in its value. -/
theorem hasPath_put (h : Entries.put es path key v = some es') (hp : HasPath p es') :
    HasPath p es ∨ p <+: path ++ [key] ∨ ∃ q, p = path ++ key :: q ∧ InValue q v := by
  obtain ⟨⟨changed, ⟨⟩⟩, hchanged, h⟩ := Option.bind_eq_some_iff.mp h
  cases h
  refine (hasPath_updateAt (R := fun q => q = [key] ∨ ∃ r, q = key :: r ∧ InValue r v) ?_ hchanged
    hp).imp_right ?_
  · intro kind es es' a h q hq
    dsimp only at h
    split at h
    · cases h
    · split at h
      · cases h
      · cases h
        exact hq.of_append
  · rintro (hp | ⟨q, rfl, rfl | ⟨r, rfl, hr⟩⟩)
    · exact .inl (hp.trans (List.prefix_append _ _))
    · exact .inl List.prefix_rfl
    · exact .inr ⟨r, rfl, hr⟩

/-- So every path of a table in braces comes from one of its pairs. -/
theorem hasPath_foldlM_put {pairs : List (List String × String × Value)}
    (h : pairs.foldlM (fun (es : Entries) p => es.put p.1 p.2.1 p.2.2) es = some es')
    (hp : HasPath p es') :
    HasPath p es ∨ ∃ pair ∈ pairs, p <+: pair.1 ++ [pair.2.1] ∨
      ∃ q, p = pair.1 ++ pair.2.1 :: q ∧ InValue q pair.2.2 := by
  induction pairs generalizing es with
  | nil =>
    cases h
    exact .inl hp
  | cons pair pairs ih =>
    rw [List.foldlM_cons] at h
    obtain ⟨es₁, hput, h⟩ := Option.bind_eq_some_iff.mp h
    rcases ih h with hp | ⟨other, hother, hp⟩
    · rcases hasPath_put hput hp with hp | hp
      · exact .inl hp
      · exact .inr ⟨pair, List.mem_cons_self, hp⟩
    · exact .inr ⟨other, List.mem_cons_of_mem _ hother, hp⟩

/-! ## Documents under construction -/

namespace Draft

theorem addsOnly_store (opened : Entries) (isArray : Bool) (last : String) :
    AddsOnly (fun q => q = [last] ∨ ∃ r, q = last :: r ∧ HasPath r opened)
      (store opened isArray last) := by
  intro kind es es' a h q hq
  unfold store at h
  split at h
  · rename_i items hlookup
    cases h
    rcases hq.of_set (.of_lookup hlookup) with hq | ⟨r, rfl, _, holds, hr⟩
    · exact .inl hq
    · cases holds with
      | tables mem =>
        rcases List.mem_append.mp mem with mem | mem
        · exact .inl (.of_lookup_inside hlookup ⟨_, .tables mem, hr⟩)
        · cases List.mem_singleton.mp mem
          exact .inr (.inr ⟨r, rfl, hr⟩)
  · cases h
    rcases hq.of_append with hq | rfl | ⟨r, rfl, _, ⟨⟩, hr⟩
    · exact .inl hq
    · exact .inr (.inl rfl)
    · exact .inr (.inr ⟨r, rfl, hr⟩)
  · cases h

theorem addsOnly_openTable (last : String) : AddsOnly (fun q => q = [last]) (openTable last) := by
  intro kind es es' a h q hq
  unfold openTable at h
  split at h
  · cases h
    exact .inl hq
  · cases h
    exact .inl (hq.of_subset fun e he => (List.mem_filter.mp he).1)
  · cases h

theorem hasPath_openTable (last : String) (kind : TableKind) {a : Entries}
    (h : openTable last kind es = some (es', a)) (hq : HasPath q a) : HasPath (last :: q) es := by
  unfold openTable at h
  split at h
  · cases h
    exact absurd hq (HasPath.not_nil q)
  · rename_i inner hlookup
    cases h
    exact .of_lookup_inside hlookup ⟨_, .table _ _, hq⟩
  · cases h

theorem addsOnly_openArray (last : String) : AddsOnly (fun q => q = [last]) (openArray last) := by
  intro kind es es' a h q hq
  unfold openArray at h
  split at h
  · cases h
    rcases hq.of_append with hq | rfl | ⟨r, -, hr⟩
    · exact .inl hq
    · exact .inr rfl
    · exact absurd hr (not_inValue_tables_nil r)
  · cases h
    exact .inl hq
  · cases h

theorem hasPath_openArray (last : String) (kind : TableKind) {a : Entries}
    (h : openArray last kind es = some (es', a)) (hq : HasPath q a) : HasPath (last :: q) es := by
  unfold openArray at h
  split at h <;> cases h <;> exact absurd hq (HasPath.not_nil q)

variable {W : List String → Prop} {d d' : Draft}

/-- All paths of the document are in the set: those of what is finished, and those of the open table
behind the place where it will stand. -/
structure Within (W : List String → Prop) (d : Draft) : Prop where
  root : ∀ p, HasPath p d.root → W p
  opened : ∀ q, HasPath q d.opened → W (d.place ++ q)
  place : ∀ p, p ≠ [] → p <+: d.place → W p

theorem within_start (W : List String → Prop) : start.Within W :=
  ⟨fun p hp => absurd hp (HasPath.not_nil p), fun q hq => absurd hq (HasPath.not_nil q),
    fun _ hne hp => absurd (List.prefix_nil.mp hp) hne⟩

theorem Within.close (hd : d.Within W) (h : d.close = some es) (hp : HasPath p es) : W p := by
  unfold Draft.close at h
  split at h
  · rename_i hplace
    cases h
    have hnil : d.place = [] := List.getLast?_eq_none_iff.mp hplace
    have hopened := hd.opened p hp
    rwa [hnil] at hopened
  · rename_i last hlast
    obtain ⟨⟨root, ⟨⟩⟩, hroot, h⟩ := Option.bind_eq_some_iff.mp h
    cases h
    have hplace : d.place.dropLast ++ [last] = d.place := List.dropLast_append_getLast? last hlast
    have hne := hp.ne_nil
    rcases hasPath_updateAt (addsOnly_store _ _ _) hroot hp with
      hold | hfront | ⟨q, rfl, rfl | ⟨r, rfl, hr⟩⟩
    · exact hd.root p hold
    · exact hd.place p hne (hfront.trans (List.dropLast_prefix _))
    · rw [hplace] at hne ⊢
      exact hd.place _ hne List.prefix_rfl
    · have hopened := hd.opened r hr
      rwa [← hplace, List.append_assoc] at hopened

theorem Within.openAt (hd : d.Within W) {isArray : Bool} (hpath : ∀ p ≠ [], p <+: path → W p)
    (h : d.openAt isArray path = some d') : d'.Within W := by
  obtain ⟨closed, hclose, h⟩ := Option.bind_eq_some_iff.mp h
  obtain ⟨last, hlast, h⟩ := Option.bind_eq_some_iff.mp h
  obtain ⟨⟨root, opened⟩, hupdate, h⟩ := Option.bind_eq_some_iff.mp h
  cases h
  have hplace : path.dropLast ++ [last] = path := List.dropLast_append_getLast? last hlast
  have hadds : AddsOnly (fun q => q = [last])
      (if isArray then openArray last else openTable last) := by
    cases isArray with
    | true => exact addsOnly_openArray last
    | false => exact addsOnly_openTable last
  constructor
  · intro p hp
    have hne := hp.ne_nil
    rcases hasPath_updateAt hadds hupdate hp with hold | hfront | ⟨q, rfl, rfl⟩
    · exact hd.close hclose hold
    · exact hpath p hne (hfront.trans (List.dropLast_prefix _))
    · rw [hplace] at hne ⊢
      exact hpath _ hne List.prefix_rfl
  · intro q hq
    have htaken : HasPath (path.dropLast ++ last :: q) closed := by
      refine hasPath_taken (fun kind es es' a h r hr => ?_) hupdate hq
      cases isArray with
      | true => exact hasPath_openArray last kind h hr
      | false => exact hasPath_openTable last kind h hr
    have hwithin := hd.close hclose htaken
    rwa [← List.singleton_append, ← List.append_assoc, hplace] at hwithin
  · exact hpath

end Draft

/-! ## Statements -/

/-- The header that stands above what follows a statement. -/
def headerAfter (header : List String) : Statement → List String
  | .header path => path
  | .arrayHeader path => path
  | .pair _ _ _ => header

/-- All paths that a statement adds under a header are in the set. -/
def Statement.AddsWithin (W : List String → Prop) (header : List String) : Statement → Prop
  | .header path => ∀ p ≠ [], p <+: path → W p
  | .arrayHeader path => ∀ p ≠ [], p <+: path → W p
  | .pair path key v => (∀ p ≠ [], p <+: path ++ [key] → W (header ++ p)) ∧
      ∀ q, InValue q v → W (header ++ (path ++ key :: q))

namespace Draft

variable {W : List String → Prop} {d d' : Draft}

/-- One statement keeps all paths in the set, if its own are. -/
theorem Within.add (hd : d.Within W) {st : Statement} (hst : st.AddsWithin W d.place)
    (h : d.add st = some d') : d'.Within W ∧ d'.place = headerAfter d.place st := by
  cases st with
  | header path =>
    have hplace : d'.place = path := by
      obtain ⟨_, _, h⟩ := Option.bind_eq_some_iff.mp h
      obtain ⟨_, _, h⟩ := Option.bind_eq_some_iff.mp h
      obtain ⟨_, _, h⟩ := Option.bind_eq_some_iff.mp h
      cases h
      rfl
    exact ⟨hd.openAt hst h, hplace⟩
  | arrayHeader path =>
    have hplace : d'.place = path := by
      obtain ⟨_, _, h⟩ := Option.bind_eq_some_iff.mp h
      obtain ⟨_, _, h⟩ := Option.bind_eq_some_iff.mp h
      obtain ⟨_, _, h⟩ := Option.bind_eq_some_iff.mp h
      cases h
      rfl
    exact ⟨hd.openAt hst h, hplace⟩
  | pair path key v =>
    obtain ⟨opened, hput, h⟩ := Option.bind_eq_some_iff.mp h
    cases h
    refine ⟨⟨hd.root, fun q hq => ?_, hd.place⟩, rfl⟩
    have hne := hq.ne_nil
    rcases hasPath_put hput hq with hold | hfront | ⟨r, rfl, hr⟩
    · exact hd.opened q hold
    · exact hst.1 q hne hfront
    · exact hst.2 r hr

/-- So do all statements, each under its header. -/
theorem Within.foldlM {sts : List Statement} (hd : d.Within W)
    (hsts : ∀ before st after, sts = before ++ st :: after →
      st.AddsWithin W (before.foldl headerAfter d.place))
    (h : sts.foldlM Draft.add d = some d') : d'.Within W := by
  induction sts generalizing d with
  | nil =>
    cases h
    exact hd
  | cons st sts ih =>
    rw [List.foldlM_cons] at h
    obtain ⟨next, hnext, h⟩ := Option.bind_eq_some_iff.mp h
    obtain ⟨hwithin, hplace⟩ := hd.add (hsts [] st sts rfl) hnext
    refine ih hwithin (fun before other after heq => ?_) h
    rw [hplace]
    exact hsts (st :: before) other after (congrArg (st :: ·) heq)

end Draft

/-- **Every path of a document comes from one of its statements**, under the header above it. -/
theorem of_hasPath {W : List String → Prop} {sts : List Statement} {d : Draft}
    (hsts : ∀ before st after, sts = before ++ st :: after →
      st.AddsWithin W (before.foldl headerAfter []))
    (hadd : sts.foldlM Draft.add Draft.start = some d) (hclose : d.close = some es)
    (hp : HasPath p es) : W p :=
  ((Draft.within_start W).foldlM hsts hadd).close hclose hp

end AssetPack.Toml
