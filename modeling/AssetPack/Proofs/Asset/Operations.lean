import Mathlib.Data.List.Induction
import AssetPack.Emit.Images
import AssetPack.Emit.Shaders
import AssetPack.Proofs.Asset.Catalog

/-!
# Catalogs that are worked on

A catalog is filled asset by asset and its assets are then rebuilt, all of them at once and in
order. Either may fail: a catalog that refuses an asset is as it was, and one whose assets cannot
all be rebuilt is gone. This file says what is in a catalog after any such history
(`holds_firsts_in_order`): each identifier that was put in, once, in order, with the first asset
that came under it as the rebuilding since then has made it.

The functions that rebuild may keep something in mind from one call to the next. That is how the
calls themselves can be spoken of: `noting` makes of any such function one that also writes down
what it is called with.

What one operation does to the history so far is `HoldsFirsts.step`; the rest is induction from the
last operation backwards.
-/

set_option autoImplicit false

namespace AssetPack.Catalog

variable {σ ε α β : Type}

/-! ## Computations with a memory -/

/-- The result of a computation begun in a state, and the state in which it ends. -/
def outcome (x : ExceptT ε (StateM σ) α) (s : σ) : Except ε α × σ := x.run.run s

theorem outcome_pure (a : α) (s : σ) :
    outcome (pure a : ExceptT ε (StateM σ) α) s = (.ok a, s) := rfl

theorem outcome_bind (x : ExceptT ε (StateM σ) α) (f : α → ExceptT ε (StateM σ) β) (s : σ) :
    outcome (x >>= f) s =
      match outcome x s with
      | (.ok a, t) => outcome (f a) t
      | (.error e, t) => (.error e, t) := by
  simp only [outcome, ExceptT.run_bind, StateT.run_bind]
  rcases StateT.run x.run s with ⟨_ | a, t⟩ <;> rfl

theorem outcome_map (g : α → β) (x : ExceptT ε (StateM σ) α) (s : σ) :
    outcome (g <$> x) s = ((outcome x s).1.map g, (outcome x s).2) := by
  rw [← bind_pure_comp, outcome_bind]
  rcases outcome x s with ⟨_ | a, t⟩ <;> rfl

theorem outcome_bind_eq_ok {x : ExceptT ε (StateM σ) α} {f : α → ExceptT ε (StateM σ) β} {s u : σ}
    {b : β} : outcome (x >>= f) s = (.ok b, u) ↔
      ∃ a t, outcome x s = (.ok a, t) ∧ outcome (f a) t = (.ok b, u) := by
  rw [outcome_bind]
  rcases outcome x s with ⟨_ | a, t⟩ <;> simp

theorem outcome_bind_eq_error {x : ExceptT ε (StateM σ) α} {f : α → ExceptT ε (StateM σ) β}
    {s u : σ} {e : ε} : outcome (x >>= f) s = (.error e, u) ↔
      outcome x s = (.error e, u) ∨
        ∃ a t, outcome x s = (.ok a, t) ∧ outcome (f a) t = (.error e, u) := by
  rw [outcome_bind]
  rcases outcome x s with ⟨_ | a, t⟩ <;> simp

/-! ## The calls of a rebuilding -/

/-- The function called on some assets one after the other, each call beginning in the state in
which the one before it ended, and what the calls made of the assets. -/
inductive Calls (f : α → ExceptT ε (StateM σ) α) : σ → List α → List α → σ → Prop
  | nil (s : σ) : Calls f s [] [] s
  | cons {s t u : σ} {a b : α} {rest rebuilt : List α} (head : outcome (f a) s = (.ok b, t))
      (tail : Calls f t rest rebuilt u) : Calls f s (a :: rest) (b :: rebuilt) u

/-- The function, which also writes down what it is called with. -/
def noting (f : α → ExceptT ε (StateM σ) α) (a : α) : ExceptT ε (StateM (σ × List α)) α :=
  ExceptT.mk fun (s, seen) => ((outcome (f a) s).1, (outcome (f a) s).2, seen ++ [a])

/-- How a rebuilding went: the assets, those of them that the function was called with, and the
result. Either these are all the assets, or the last of them is the one at which it failed. -/
inductive Went (f : α → ExceptT ε (StateM σ) α) (s : σ) :
    List α → List α → Except ε (List α) → σ → Prop
  | through {assets rebuilt : List α} {t : σ} (calls : Calls f s assets rebuilt t) :
      Went f s assets assets (.ok rebuilt) t
  | stopped {done rebuilt rest : List α} {a : α} {e : ε} {t u : σ} (calls : Calls f s done rebuilt t)
      (last : outcome (f a) t = (.error e, u)) :
      Went f s (done ++ a :: rest) (done ++ [a]) (.error e) u

theorem outcome_noting (f : α → ExceptT ε (StateM σ) α) (a : α) (s : σ) (seen : List α) :
    outcome (noting f a) (s, seen) =
      ((outcome (f a) s).1, (outcome (f a) s).2, seen ++ [a]) := rfl

/-- A list is rebuilt by calling the function on its elements in order, up to and including the
first at which it fails. -/
theorem exists_went (f : α → ExceptT ε (StateM σ) α) (assets : List α) (s : σ) (seen : List α) :
    ∃ called r t, Went f s assets called r t ∧ outcome (assets.mapM f) s = (r, t) ∧
      outcome (assets.mapM (noting f)) (s, seen) = (r, t, seen ++ called) := by
  induction assets generalizing s seen with
  | nil => exact ⟨[], .ok [], s, .through (.nil s), rfl, by rw [List.append_nil]; rfl⟩
  | cons a rest ih =>
    rw [List.mapM_cons, List.mapM_cons]
    cases hcall : outcome (f a) s with
    | mk first t =>
      cases first with
      | error e =>
        refine ⟨[a], .error e, t, .stopped (.nil s) hcall, ?_, ?_⟩
        · rw [outcome_bind, hcall]
        · rw [outcome_bind, outcome_noting, hcall]
      | ok b =>
        obtain ⟨called, r, u, hwent, hrun, hnoted⟩ := ih t (seen ++ [a])
        rw [outcome_bind, hcall, outcome_bind, outcome_noting, hcall]
        simp only [outcome_bind, hrun, hnoted, List.append_assoc, List.singleton_append]
        cases hwent with
        | through calls => exact ⟨a :: rest, _, u, .through (.cons hcall calls), rfl, rfl⟩
        | stopped calls last =>
          rename_i done rebuilt after x e v
          exact ⟨a :: done ++ [x], .error e, u, .stopped (.cons hcall calls) last, rfl, rfl⟩

theorem outcome_mapM_assets (f : α → ExceptT ε (StateM σ) α) (c : Catalog α) (s : σ) :
    outcome (c.assets.mapM f) s =
      ((outcome (c.mapM f) s).1.map assets, (outcome (c.mapM f) s).2) := by
  rw [← assets_mapM, outcome_map]

theorem identifiers_of_outcome_mapM {f : α → ExceptT ε (StateM σ) α} {c c' : Catalog α} {s t : σ}
    (h : outcome (c.mapM f) s = (.ok c', t)) : c'.identifiers = c.identifiers := by
  obtain ⟨rebuilt, u, -, h⟩ := outcome_bind_eq_ok.mp h
  cases h
  exact rebuilt.2

/-- Of results that keep the identifiers, the assets decide. -/
theorem eq_of_map_assets_eq {r r' : Except ε (Catalog α)} (h : r.map assets = r'.map assets)
    (hids : ∀ c c', r = .ok c → r' = .ok c' → c.identifiers = c'.identifiers) : r = r' := by
  cases r with
  | error e =>
    cases r' with
    | error e' => exact congrArg Except.error (Except.error.inj h)
    | ok c' => cases h
  | ok c =>
    cases r' with
    | error e' => cases h
    | ok c' => exact congrArg Except.ok (eq_of_identifiers_eq (hids c c' rfl rfl) (Except.ok.inj h))

/-- A catalog is rebuilt by the calls that its assets are rebuilt by. -/
theorem exists_went_mapM (f : α → ExceptT ε (StateM σ) α) (c : Catalog α) (s : σ) :
    ∃ called r t, outcome (c.mapM f) s = (r, t) ∧ Went f s c.assets called (r.map assets) t ∧
      outcome (c.mapM (noting f)) (s, []) = (r, t, called) := by
  obtain ⟨called, r, t, hwent, hrun, hnoted⟩ := exists_went f c.assets s []
  rw [outcome_mapM_assets] at hrun hnoted
  rcases hends : outcome (c.mapM f) s with ⟨r', t'⟩
  rcases hnotes : outcome (c.mapM (noting f)) (s, []) with ⟨r'', t''⟩
  rw [hends] at hrun
  rw [hnotes] at hnoted
  cases hrun
  obtain ⟨hassets, rfl⟩ := Prod.mk.inj hnoted
  have hsame : r'' = r' := by
    refine eq_of_map_assets_eq hassets ?_
    rintro d d' rfl rfl
    exact (identifiers_of_outcome_mapM hnotes).trans (identifiers_of_outcome_mapM hends).symm
  exact ⟨called, r', t', rfl, hwent, by rw [hsame, List.nil_append]⟩

theorem calls_of_mapM {f : α → ExceptT ε (StateM σ) α} {c c' : Catalog α} {s t : σ}
    (h : outcome (c.mapM f) s = (.ok c', t)) : Calls f s c.assets c'.assets t := by
  obtain ⟨called, r, u, hrun, hwent, -⟩ := exists_went_mapM f c s
  rw [h] at hrun
  cases hrun
  generalize hassets : c.assets = assets at hwent
  cases hwent with
  | through calls => exact calls

theorem Calls.exists_of_mem {f : α → ExceptT ε (StateM σ) α} {s t : σ} {assets rebuilt : List α}
    (h : Calls f s assets rebuilt t) {b : α} (hb : b ∈ rebuilt) :
    ∃ a ∈ assets, ∃ s t, outcome (f a) s = (.ok b, t) := by
  induction h with
  | nil => cases hb
  | cons head _ ih =>
    rcases List.mem_cons.mp hb with rfl | hb
    · exact ⟨_, List.mem_cons_self, _, _, head⟩
    · obtain ⟨a, ha, hcall⟩ := ih hb
      exact ⟨a, List.mem_cons_of_mem _ ha, hcall⟩

/-! ## What rebuilding keeps -/

variable [Asset α]

/-- The function never gives an asset another identifier. -/
def KeepsIdentifiers (f : α → ExceptT ε (StateM σ) α) : Prop :=
  ∀ a s b t, outcome (f a) s = (.ok b, t) → Asset.identifier b = Asset.identifier a

theorem Calls.map_identifier {f : α → ExceptT ε (StateM σ) α} (hf : KeepsIdentifiers f) {s t : σ}
    {assets rebuilt : List α} (h : Calls f s assets rebuilt t) :
    rebuilt.map Asset.identifier = assets.map Asset.identifier := by
  induction h with
  | nil => rfl
  | cons head _ ih => rw [List.map_cons, List.map_cons, hf _ _ _ _ head, ih]

/-! ## Histories -/

/-- One operation on a catalog. -/
inductive Operation (σ ε α : Type) where
  | insert (a : α)
  | rebuild (f : α → ExceptT ε (StateM σ) α)

/-- The catalog after one operation; a failed rebuilding leaves none. -/
def perform (c : Catalog α) : Operation σ ε α → ExceptT ε (StateM σ) (Catalog α)
  | .insert a => pure (c.put a).2
  | .rebuild f => c.mapM f

/-- The catalog after a list of operations, from the empty one. -/
def history (operations : List (Operation σ ε α)) : ExceptT ε (StateM σ) (Catalog α) :=
  operations.foldlM perform empty

/-- No operation gives an asset another identifier. -/
def Keeping (operations : List (Operation σ ε α)) : Prop :=
  ∀ f, .rebuild f ∈ operations → KeepsIdentifiers f

/-- The second asset is the first one as all the rebuildings among the operations, in turn, have
made it. -/
inductive Rebuilt : List (Operation σ ε α) → α → α → Prop
  | nil (a : α) : Rebuilt [] a a
  | insert {operations : List (Operation σ ε α)} {a b : α} (x : α) (since : Rebuilt operations a b) :
      Rebuilt (operations ++ [.insert x]) a b
  | rebuild {operations : List (Operation σ ε α)} {a b c : α} {f : α → ExceptT ε (StateM σ) α}
      {s t : σ} (since : Rebuilt operations a b) (call : outcome (f b) s = (.ok c, t)) :
      Rebuilt (operations ++ [.rebuild f]) a c

/-- The asset is the first with its identifier that the operations insert, as the rebuildings behind
have made it. -/
def IsFirst (operations : List (Operation σ ε α)) (b : α) : Prop :=
  ∃ before a after, operations = before ++ .insert a :: after ∧
    (∀ x, .insert x ∈ before → Asset.identifier x ≠ Asset.identifier b) ∧
    Asset.identifier a = Asset.identifier b ∧ Rebuilt after a b

/-- The catalog that the operations lead to: every asset under its own identifier and the first with
it, and none of the identifiers missing. -/
structure HoldsFirsts (operations : List (Operation σ ε α)) (c : Catalog α) : Prop where
  own : c.Own
  first : ∀ b ∈ c.assets, IsFirst operations b
  present : ∀ a, .insert a ∈ operations → Asset.identifier a ∈ c.identifiers

theorem IsFirst.insert {operations : List (Operation σ ε α)} {b : α} (h : IsFirst operations b)
    (x : α) : IsFirst (operations ++ [.insert x]) b := by
  obtain ⟨before, a, after, rfl, hbefore, hid, hafter⟩ := h
  exact ⟨before, a, after ++ [.insert x], by simp, hbefore, hid, hafter.insert x⟩

theorem IsFirst.rebuild {operations : List (Operation σ ε α)} {b c : α}
    {f : α → ExceptT ε (StateM σ) α} (hf : KeepsIdentifiers f) {s t : σ} (h : IsFirst operations b)
    (hcall : outcome (f b) s = (.ok c, t)) : IsFirst (operations ++ [.rebuild f]) c := by
  obtain ⟨before, a, after, rfl, hbefore, hid, hafter⟩ := h
  have hsame : Asset.identifier c = Asset.identifier b := hf _ _ _ _ hcall
  refine ⟨before, a, after ++ [.rebuild f], by simp, ?_, hid.trans hsame.symm, hafter.rebuild hcall⟩
  rw [hsame]
  exact hbefore

/-- An asset with a new identifier comes first with it. -/
theorem HoldsFirsts.taken {operations : List (Operation σ ε α)} {c c' : Catalog α} {a : α}
    (h : HoldsFirsts operations c) (hinsert : c.insert a = .ok c') :
    HoldsFirsts (operations ++ [.insert a]) c' := by
  obtain ⟨hnew, hentries⟩ := insert_eq_ok.mp hinsert
  refine ⟨h.own.insert hinsert, ?_, ?_⟩
  · intro b hb
    rcases (mem_assets_of_insert hinsert).mp hb with rfl | hb
    · refine ⟨operations, b, [], rfl, ?_, rfl, .nil b⟩
      intro x hx heq
      exact hnew (heq ▸ h.present x hx)
    · exact (h.first b hb).insert a
  · intro x hx
    rw [identifiers, hentries, mem_map_fst_place]
    rcases List.mem_append.mp hx with hx | hx
    · exact .inr (h.present x hx)
    · cases List.mem_singleton.mp hx
      exact .inl rfl

/-- An asset whose identifier is there already changes nothing. -/
theorem HoldsFirsts.refused {operations : List (Operation σ ε α)} {c : Catalog α} {a : α}
    (h : HoldsFirsts operations c) (hthere : Asset.identifier a ∈ c.identifiers) :
    HoldsFirsts (operations ++ [.insert a]) c := by
  refine ⟨h.own, fun b hb => (h.first b hb).insert a, ?_⟩
  intro x hx
  rcases List.mem_append.mp hx with hx | hx
  · exact h.present x hx
  · cases List.mem_singleton.mp hx
    exact hthere

theorem HoldsFirsts.insert {operations : List (Operation σ ε α)} {c : Catalog α}
    (h : HoldsFirsts operations c) (a : α) :
    HoldsFirsts (operations ++ [.insert a]) (c.put a).2 := by
  cases hinsert : c.insert a with
  | ok c' =>
    rw [put_of_insert_eq_ok hinsert]
    exact h.taken hinsert
  | error clash =>
    obtain ⟨b, hget, -⟩ := exists_of_insert_eq_error hinsert
    rw [put_of_some hget]
    exact h.refused (List.mem_map_of_mem (get?_eq_some.mp hget))

theorem HoldsFirsts.rebuild {operations : List (Operation σ ε α)} {c c' : Catalog α}
    {f : α → ExceptT ε (StateM σ) α} (hf : KeepsIdentifiers f) {s t : σ}
    (h : HoldsFirsts operations c) (hrun : outcome (c.mapM f) s = (.ok c', t)) :
    HoldsFirsts (operations ++ [.rebuild f]) c' := by
  have hcalls := calls_of_mapM hrun
  have hids : c'.identifiers = c.identifiers := identifiers_of_outcome_mapM hrun
  refine ⟨?_, ?_, ?_⟩
  · rw [own_iff, hcalls.map_identifier hf, own_iff.mp h.own, hids]
  · intro b hb
    obtain ⟨a, ha, s', t', hcall⟩ := hcalls.exists_of_mem hb
    exact (h.first a ha).rebuild hf hcall
  · intro x hx
    rw [hids]
    rcases List.mem_append.mp hx with hx | hx
    · exact h.present x hx
    · cases List.mem_singleton.mp hx

/-- **What one operation keeps.** -/
theorem HoldsFirsts.step {operations : List (Operation σ ε α)} {operation : Operation σ ε α}
    {c c' : Catalog α} {s t : σ} (h : HoldsFirsts operations c)
    (hkeep : Keeping (operations ++ [operation]))
    (hrun : outcome (perform c operation) s = (.ok c', t)) :
    HoldsFirsts (operations ++ [operation]) c' := by
  cases operation with
  | insert a =>
    cases hrun
    exact h.insert a
  | rebuild f => exact h.rebuild (hkeep f (by simp)) hrun

theorem history_append_eq_ok {operations : List (Operation σ ε α)} {operation : Operation σ ε α}
    {c : Catalog α} {s t : σ} :
    outcome (history (operations ++ [operation])) s = (.ok c, t) ↔
      ∃ d u, outcome (history operations) s = (.ok d, u) ∧
        outcome (perform d operation) u = (.ok c, t) := by
  rw [history, List.foldlM_append, outcome_bind_eq_ok]
  simp only [List.foldlM_cons, List.foldlM_nil, bind_pure]
  rfl

theorem HoldsFirsts.nil : HoldsFirsts ([] : List (Operation σ ε α)) empty where
  own := own_empty
  first := fun _ hb => nomatch hb
  present := fun _ ha => nomatch ha

/-- What a whole history keeps, from its last operation backwards. -/
theorem holdsFirsts_history {operations : List (Operation σ ε α)} {c : Catalog α} {s t : σ}
    (hkeep : Keeping operations) (hrun : outcome (history operations) s = (.ok c, t)) :
    HoldsFirsts operations c := by
  induction operations using List.reverseRecOn generalizing c t with
  | nil =>
    cases hrun
    exact .nil
  | append_singleton operations operation ih =>
    obtain ⟨d, u, hbefore, hlast⟩ := history_append_eq_ok.mp hrun
    exact (ih (fun f hf => hkeep f (List.mem_append_left _ hf)) hbefore).step hkeep hlast

/-- A history that leads to no catalog is stopped by a rebuilding, with its error. -/
theorem exists_of_history_eq_error {operations : List (Operation σ ε α)} {e : ε} {s u : σ}
    (hrun : outcome (history operations) s = (.error e, u)) :
    ∃ before f after c t, operations = before ++ .rebuild f :: after ∧
      outcome (history before) s = (.ok c, t) ∧ outcome (c.mapM f) t = (.error e, u) := by
  induction operations using List.reverseRecOn with
  | nil => cases hrun
  | append_singleton operations operation ih =>
    rw [history, List.foldlM_append, outcome_bind_eq_error] at hrun
    rcases hrun with hbefore | ⟨c, t, hbefore, hlast⟩
    · obtain ⟨before, f, after, c, t, rfl, hc, hfails⟩ := ih hbefore
      exact ⟨before, f, after ++ [operation], c, t, by simp, hc, hfails⟩
    · simp only [List.foldlM_cons, List.foldlM_nil, bind_pure] at hlast
      cases operation with
      | insert a => cases hlast
      | rebuild f => exact ⟨operations, f, [], c, t, rfl, hbefore, hlast⟩

/-! ## Insertions -/

/-- A new identifier is found with its asset, and the others as before. -/
theorem get?_of_insert {c c' : Catalog α} {a : α} (h : c.insert a = .ok c') (i : Identifier) :
    c'.get? i = if i = Asset.identifier a then some a else c.get? i := by
  obtain ⟨hnew, hentries⟩ := insert_eq_ok.mp h
  ext b
  rw [get?_eq_some, hentries, mem_place hnew, Prod.mk.injEq]
  split
  case isTrue hi =>
    subst hi
    have hnone : (Asset.identifier a, b) ∉ c.entries := fun he => hnew (List.mem_map_of_mem he)
    simp [hnone, eq_comm]
  case isFalse hi => simp [hi, get?_eq_some]

/-! ## The order of insertions -/

/-- A history of insertions none of which is refused. -/
theorem history_insert {assets : List α} {c : Catalog α} (h : ofList assets = .ok c) (s : σ) :
    outcome (history (assets.map .insert : List (Operation σ ε α))) s = (.ok c, s) := by
  have hfrom : ∀ d : Catalog α, assets.foldlM insert d = .ok c →
      outcome ((assets.map .insert : List (Operation σ ε α)).foldlM perform d) s = (.ok c, s) := by
    clear h
    induction assets with
    | nil =>
      intro d hd
      cases hd
      rfl
    | cons a rest ih =>
      intro d hd
      obtain ⟨d', hinsert, hrest⟩ := Except.bind_eq_ok.mp hd
      rw [List.map_cons, List.foldlM_cons, outcome_bind]
      simp only [perform, put_of_insert_eq_ok hinsert, outcome_pure]
      exact ih d' hrest
  exact hfrom empty h

/-- Whatever is looked at of the catalog that some assets with different identifiers are put into
one after the other, it is the same in every order of the assets. -/
def SameInEveryOrder {γ : Type} (σ ε : Type) (view : Catalog α → γ) : Prop :=
  ∀ (assets reordered : List α), assets.Perm reordered →
    Distinct assets → ∀ s : σ, ∃ c d,
      outcome (history (assets.map .insert : List (Operation σ ε α))) s = (.ok c, s) ∧
      outcome (history (reordered.map .insert : List (Operation σ ε α))) s = (.ok d, s) ∧
      view c = view d

theorem sameInEveryOrder {γ : Type} (view : Catalog α → γ) : SameInEveryOrder σ ε view := by
  intro assets reordered hperm hdistinct s
  obtain ⟨c, hc⟩ := exists_ofList_iff.mpr hdistinct
  obtain ⟨hown, hassets⟩ := ofList_eq_ok.mp hc
  have hd : ofList reordered = .ok c := ofList_eq_ok.mpr ⟨hown, hassets.trans hperm⟩
  exact ⟨c, c, history_insert hc s, history_insert hd s, rfl⟩

/-! ## The theorem -/

/-- How a catalog takes one more asset. A new identifier is found with its asset and the others as
before; a known one is an error which names the file of the stored asset and then the new one, and
leaves the catalog as it was. -/
def TakesOrRefuses (c : Catalog α) : Prop :=
  ∀ a, match c.get? (Asset.identifier a) with
    | none => ∃ c', c.put a = (.ok (), c') ∧
        ∀ i, c'.get? i = if i = Asset.identifier a then some a else c.get? i
    | some b => c.put a = (.error ⟨Asset.identifier a, Asset.fileName b, Asset.fileName a⟩, c)

theorem takesOrRefuses (c : Catalog α) : TakesOrRefuses c := by
  intro a
  split
  case h_1 hnone =>
    obtain ⟨c', hput, hentries⟩ := exists_put_of_none hnone
    have hinsert : c.insert a = .ok c' := insert_eq_ok.mpr ⟨get?_eq_none.mp hnone, hentries⟩
    exact ⟨c', hput, get?_of_insert hinsert⟩
  case h_2 b hsome => exact put_of_some hsome

/-- How a catalog is rebuilt: by calling the function on its assets, in their order, up to and
including the first at which it fails. Number, identifiers and order stay, and if the function keeps
identifiers, so does every asset. -/
def RebuildsInOrder (σ ε : Type) (c : Catalog α) : Prop :=
  ∀ (f : α → ExceptT ε (StateM σ) α) (s : σ), ∃ called r t, outcome (c.mapM f) s = (r, t) ∧
    Went f s c.assets called (r.map assets) t ∧
    outcome (c.mapM (noting f)) (s, []) = (r, t, called) ∧
    ∀ c', r = .ok c' → c'.size = c.size ∧ c'.identifiers = c.identifiers ∧
      (KeepsIdentifiers f → c'.assets.map Asset.identifier = c.assets.map Asset.identifier)

theorem rebuildsInOrder (c : Catalog α) : RebuildsInOrder σ ε c := by
  intro f s
  obtain ⟨called, r, t, hrun, hwent, hnoted⟩ := exists_went_mapM f c s
  refine ⟨called, r, t, hrun, hwent, hnoted, ?_⟩
  rintro c' rfl
  have hids : c'.identifiers = c.identifiers := identifiers_of_outcome_mapM hrun
  refine ⟨?_, hids, (calls_of_mapM hrun).map_identifier⟩
  rw [← length_identifiers, hids, length_identifiers]

/-- **A catalog holds the first assets, in order.** A history that is not stopped leads to a catalog
in which each asset is found under its own identifier, the identifiers ascend in their bytes, and
they are those that were inserted, each with the first of its assets as it was rebuilt since. Such
a catalog takes and refuses assets and is rebuilt as described above; what stops a history is the
first failure of a rebuilding. So no order of insertion shows in the catalog, in a fingerprint or in
a class. -/
theorem holds_firsts_in_order {operations : List (Operation σ ε α)} {s t : σ}
    {r : Except ε (Catalog α)} (hkeep : Keeping operations)
    (hrun : outcome (history operations) s = (r, t)) :
    (∀ c, r = .ok c →
      HoldsFirsts operations c ∧
      (c.assets.Pairwise fun a b => Text.Utf8.encode (Asset.identifier a).name.toList <
        Text.Utf8.encode (Asset.identifier b).name.toList) ∧
      (∀ i a, c.get? i = some a ↔ a ∈ c.assets ∧ Asset.identifier a = i) ∧
      TakesOrRefuses c ∧ RebuildsInOrder σ ε c) ∧
    (∀ e, r = .error e → ∃ before f after c u, operations = before ++ .rebuild f :: after ∧
      outcome (history before) s = (.ok c, u) ∧ outcome (c.mapM f) u = (.error e, t)) ∧
    SameInEveryOrder σ ε (fun c : Catalog α => c.assets) ∧
    (∀ signature mode name, SameInEveryOrder σ ε (Fingerprint.ofShaders signature mode name)) ∧
    (∀ signature name crunched,
      SameInEveryOrder σ ε (Fingerprint.ofImages signature name crunched)) ∧
    (∀ name mode fingerprint, SameInEveryOrder σ ε fun c => Emit.shaders name mode c fingerprint) ∧
    ∀ name fingerprint, SameInEveryOrder σ ε fun c => Emit.images name c fingerprint := by
  refine ⟨?_, ?_, sameInEveryOrder _, fun _ _ _ => sameInEveryOrder _,
    fun _ _ _ => sameInEveryOrder _, fun _ _ _ => sameInEveryOrder _, fun _ _ => sameInEveryOrder _⟩
  · rintro c rfl
    have hholds := holdsFirsts_history hkeep hrun
    exact ⟨hholds, hholds.own.pairwise.imp Identifier.name_lt_iff.mp,
      fun _ _ => hholds.own.get?_eq_some, takesOrRefuses c, rebuildsInOrder c⟩
  · rintro e rfl
    exact exists_of_history_eq_error hrun

/-! ### A history with a refusal -/

namespace Reworked

/-- A shader without text. -/
def shader (name : String) (isWord : ∀ c ∈ name.toList, Text.isWordChar c = true)
    (fileName : String) : Shader := ⟨⟨name, isWord⟩, fileName, []⟩

def b : Shader := shader "b_fsh" (List.all_eq_true.mp (by decide)) "b.fsh"

def a : Shader := shader "a_fsh" (List.all_eq_true.mp (by decide)) "a.fsh"

/-- Has the identifier of `a`. -/
def other : Shader := shader "a_fsh" (List.all_eq_true.mp (by decide)) "a_fsh"

/-- The shader with the number of the call as its text. -/
def numbered (s : Shader) : ExceptT String (StateM Nat) Shader := do
  let n ← getModify (· + 1)
  return { s with source := [n.toUInt8] }

def operations : List (Operation Nat String Shader) :=
  [.insert b, .insert a, .rebuild numbered, .insert other]

end Reworked

/-- The second shader is refused for the first one's sake, although that one has been rebuilt. -/
theorem holds_firsts_in_order_reworked :
    HoldsFirsts Reworked.operations
      (ofAscending [{ Reworked.a with source := [0] }, { Reworked.b with source := [1] }]
        (by decide +kernel)) := by
  refine ((holds_firsts_in_order (s := 0) (t := 2) ?_ rfl).1 _ rfl).1
  intro f hf s n s' n' hcall
  have hnumbered : f = Reworked.numbered := by simpa [Reworked.operations] using hf
  subst hnumbered
  cases hcall
  rfl

end AssetPack.Catalog
