import AssetPack.Job
import Mathlib.Data.List.Forall2

/-!
# How jobs end

Whatever a run logs, what it comes to is a result and a state. `Job.Ends job s r s'` says that the
job, begun in `s`, ends with the result `r` in the state `s'`. There is one rule for each way to
build a job, and the rule for `>>=` takes a run that succeeds apart into its steps. Loops over a
list, in a job or in `Except`, are taken apart by the lemmas before it.
-/

set_option autoImplicit false

namespace AssetPack

/-- A computation that goes on succeeds just if both parts do. -/
theorem Except.bind_eq_ok {ε α β : Type} {x : Except ε α} {f : α → Except ε β} {b : β} :
    x >>= f = .ok b ↔ ∃ a, x = .ok a ∧ f a = .ok b := by
  cases x with
  | error e => exact ⟨nofun, nofun⟩
  | ok a => exact ⟨fun h => ⟨a, rfl, h⟩, fun ⟨_, ha, h⟩ => by cases ha; exact h⟩

@[simp] theorem Except.ok_bind {ε α β : Type} (a : α) (f : α → Except ε β) :
    (.ok a : Except ε α) >>= f = f a := rfl

@[simp] theorem Except.error_bind {ε α β : Type} (e : ε) (f : α → Except ε β) :
    (.error e : Except ε α) >>= f = .error e := rfl

@[simp] theorem Except.mapError_eq_ok {ε ε' α : Type} {x : Except ε α} {f : ε → ε'} {a : α} :
    x.mapError f = .ok a ↔ x = .ok a := by
  cases x <;> simp [Except.mapError]

theorem Except.mapError_eq_error {ε ε' α : Type} {x : Except ε α} {f : ε → ε'} {e : ε'} :
    x.mapError f = .error e ↔ ∃ cause, x = .error cause ∧ e = f cause := by
  cases x <;> simp [Except.mapError, eq_comm]

theorem Except.map_mapError {ε ε' α β : Type} (x : Except ε α) (f : ε → ε') (g : α → β) :
    (x.mapError f).map g = (x.map g).mapError f := by
  cases x <;> rfl

theorem Except.map_eq_ok {ε α β : Type} {x : Except ε α} {f : α → β} {b : β} :
    x.map f = .ok b ↔ ∃ a, x = .ok a ∧ f a = b := by
  cases x <;> simp [Except.map]

theorem Except.exists_eq_ok_of_toOption {ε α β : Type} {x : Except ε α} {f : α → β} {b : β}
    (h : x.toOption.map f = some b) : ∃ a, x = .ok a ∧ f a = b := by
  cases x with
  | error e => cases h
  | ok a => exact ⟨a, rfl, Option.some.inj h⟩

theorem Except.eq_error_of_map {ε α β : Type} {x : Except ε α} {f : α → β} {e : ε}
    (h : x.map f = .error e) : x = .error e := by
  cases x with
  | error e' => exact congrArg Except.error (Except.error.inj h)
  | ok a => cases h

theorem Except.mapM_eq_ok {ε α β : Type} {f : α → Except ε β} {as : List α} {bs : List β} :
    as.mapM f = .ok bs ↔ List.Forall₂ (fun a b => f a = .ok b) as bs := by
  induction as generalizing bs with
  | nil => cases bs <;> simp [pure, Except.pure]
  | cons a as ih =>
    rw [List.mapM_cons, Except.bind_eq_ok]
    constructor
    · rintro ⟨b, hb, h⟩
      obtain ⟨rest, hrest, h⟩ := Except.bind_eq_ok.mp h
      cases h
      exact .cons hb (ih.mp hrest)
    · rintro (_ | ⟨hb, hrest⟩)
      exact ⟨_, hb, Except.bind_eq_ok.mpr ⟨_, ih.mpr hrest, rfl⟩⟩

theorem Except.exists_of_mapM_eq_error {ε α β : Type} {f : α → Except ε β} {as : List α} {e : ε}
    (h : as.mapM f = .error e) : ∃ a ∈ as, f a = .error e := by
  induction as with
  | nil => cases h
  | cons a as ih =>
    cases ha : f a with
    | error e' =>
      rw [List.mapM_cons, ha] at h
      cases h
      exact ⟨a, List.mem_cons_self, ha⟩
    | ok b =>
      rw [List.mapM_cons, ha, Except.ok_bind] at h
      cases hrest : as.mapM f with
      | error e' =>
        rw [hrest] at h
        cases h
        obtain ⟨a', ha', he⟩ := ih hrest
        exact ⟨a', List.mem_cons_of_mem _ ha', he⟩
      | ok bs =>
        rw [hrest] at h
        cases h

/-- A fold that fails does so at one of the elements, and went well up to there. -/
theorem Except.exists_of_foldlM_eq_error {ε α β : Type} {f : β → α → Except ε β} {as : List α}
    {b : β} {e : ε} (h : as.foldlM f b = .error e) :
    ∃ before a after b', as = before ++ a :: after ∧ before.foldlM f b = .ok b' ∧
      f b' a = .error e := by
  induction as generalizing b with
  | nil => cases h
  | cons a as ih =>
    rw [List.foldlM_cons] at h
    cases ha : f b a with
    | error e' =>
      rw [ha] at h
      cases h
      exact ⟨[], a, as, b, rfl, rfl, ha⟩
    | ok b₁ =>
      rw [ha, Except.ok_bind] at h
      obtain ⟨before, a', after, b', rfl, hbefore, he⟩ := ih h
      refine ⟨a :: before, a', after, b', rfl, ?_, he⟩
      rw [List.foldlM_cons, ha, Except.ok_bind, hbefore]

/-- What each step of a fold keeps holds in the end. -/
theorem Except.of_foldlM_eq_ok {ε α β : Type} {f : β → α → Except ε β} {as : List α}
    {P : β → Prop} (hstep : ∀ b, ∀ a ∈ as, ∀ b', P b → f b a = .ok b' → P b') {b b' : β} (hb : P b)
    (h : as.foldlM f b = .ok b') : P b' := by
  induction as generalizing b with
  | nil =>
    cases h
    exact hb
  | cons a as ih =>
    rw [List.foldlM_cons] at h
    obtain ⟨b₁, hfirst, hrest⟩ := Except.bind_eq_ok.mp h
    exact ih (fun b a ha => hstep b a (List.mem_cons_of_mem _ ha))
      (hstep b a List.mem_cons_self b₁ hb hfirst) hrest

namespace Job

variable {σ α β : Type} {s s' : σ}

/-- The job, begun in the first state, ends with the result in the second one. -/
def Ends (job : Job σ α) (s : σ) (r : Except RunError α) (s' : σ) : Prop :=
  (job.run s).1.result = r ∧ (job.run s).2 = s'

@[simp] theorem ends_inspect {look : σ → Traced RunError α} {r : Except RunError α} :
    (inspect look).Ends s r s' ↔ (look s).result = r ∧ s = s' :=
  Iff.rfl

@[simp] theorem ends_lift {x : Traced RunError α} {r : Except RunError α} :
    (lift x).Ends s r s' ↔ x.result = r ∧ s = s' :=
  Iff.rfl

@[simp] theorem ends_pure {a : α} {r : Except RunError α} :
    (pure a : Job σ α).Ends s r s' ↔ .ok a = r ∧ s = s' :=
  Iff.rfl

@[simp] theorem ends_change_ok {ε : Type} {wrap : ε → RunError} {step : σ → Except ε α × σ}
    {a : α} : (change wrap step).Ends s (.ok a) s' ↔ step s = (.ok a, s') := by
  rw [Prod.ext_iff]
  exact and_congr_left' Except.mapError_eq_ok

theorem ends_bind_ok {job : Job σ α} {f : α → Job σ β} {b : β} :
    (job >>= f).Ends s (.ok b) s' ↔
      ∃ a t, job.Ends s (.ok a) t ∧ (f a).Ends t (.ok b) s' := by
  change Ends (Job.bind job f) s (.ok b) s' ↔ _
  unfold Ends run Job.bind
  cases hjob : (job s).1.result with
  | error e => simp [hjob]
  | ok a =>
    simp only [hjob]
    constructor
    · exact fun h => ⟨a, _, ⟨rfl, rfl⟩, h⟩
    · rintro ⟨_, _, ⟨ha, rfl⟩, h⟩
      cases ha
      exact h

/-- The same for a step that gives nothing. -/
theorem ends_seq_ok {job : Job σ Unit} {f : Unit → Job σ β} {b : β} :
    (job >>= f).Ends s (.ok b) s' ↔ ∃ t, job.Ends s (.ok ()) t ∧ (f ()).Ends t (.ok b) s' :=
  ends_bind_ok.trans ⟨fun ⟨_, t, h⟩ => ⟨t, h⟩, fun ⟨t, h⟩ => ⟨(), t, h⟩⟩

@[simp] theorem ends_write [FileSystem σ] {path : Path} {bytes : List UInt8} :
    (write path bytes).Ends s (.ok ()) s' ↔ FileSystem.write s path bytes = (.ok (), s') :=
  ends_change_ok

@[simp] theorem ends_createDirs [FileSystem σ] {path : Path} :
    (createDirs path).Ends s (.ok ()) s' ↔ FileSystem.createDirs s path = (.ok (), s') :=
  ends_change_ok

/-! ### Ending in failure -/

theorem ends_change_error {ε : Type} {wrap : ε → RunError} {step : σ → Except ε α × σ}
    {e : RunError} : (change wrap step).Ends s (.error e) s' ↔
      ∃ cause, step s = (.error cause, s') ∧ e = wrap cause := by
  unfold Ends run change
  simp only [Traced.result_ofExcept, Except.mapError_eq_error, Prod.ext_iff]
  constructor
  · rintro ⟨⟨cause, hstep, he⟩, hs⟩
    exact ⟨cause, ⟨hstep, hs⟩, he⟩
  · rintro ⟨cause, ⟨hstep, hs⟩, he⟩
    exact ⟨⟨cause, hstep, he⟩, hs⟩

/-- A job that fails has failed in its first step, or in a later one from where that ended. -/
theorem ends_bind_error {job : Job σ α} {f : α → Job σ β} {e : RunError} :
    (job >>= f).Ends s (.error e) s' ↔ job.Ends s (.error e) s' ∨
      ∃ a t, job.Ends s (.ok a) t ∧ (f a).Ends t (.error e) s' := by
  change Ends (Job.bind job f) s (.error e) s' ↔ _
  unfold Ends run Job.bind
  cases hjob : (job s).1.result with
  | error e' => simp [hjob]
  | ok a =>
    simp only [hjob]
    constructor
    · intro h
      exact .inr ⟨a, _, ⟨rfl, rfl⟩, h⟩
    · rintro (⟨he, -⟩ | ⟨_, _, ⟨ha, rfl⟩, h⟩)
      · cases he
      · cases ha
        exact h

/-- A look that comes first leaves the state to the rest. -/
theorem ends_inspect_bind_error {look : σ → Traced RunError α} {f : α → Job σ β} {e : RunError} :
    (inspect look >>= f).Ends s (.error e) s' ↔ (look s).result = .error e ∧ s' = s ∨
      ∃ a, (look s).result = .ok a ∧ (f a).Ends s (.error e) s' := by
  rw [ends_bind_error]
  simp only [ends_inspect, and_assoc, exists_and_left, exists_eq_left, eq_comm (a := s)]

theorem ends_lift_bind_error {x : Traced RunError α} {f : α → Job σ β} {e : RunError} :
    (lift x >>= f).Ends s (.error e) s' ↔ x.result = .error e ∧ s' = s ∨
      ∃ a, x.result = .ok a ∧ (f a).Ends s (.error e) s' :=
  ends_inspect_bind_error

/-! ### Ends either way -/

/-- A job goes on from where its first step has ended. -/
theorem ends_bind_of_ok {job : Job σ α} {f : α → Job σ β} {a : α} {t : σ} {r : Except RunError β}
    (h : job.Ends s (.ok a) t) : (job >>= f).Ends s r s' ↔ (f a).Ends t r s' := by
  obtain ⟨ha, rfl⟩ := h
  change Ends (Job.bind job f) s r s' ↔ _
  unfold Ends run Job.bind at *
  simp only [ha]

/-- It ends where its first step has failed. -/
theorem ends_bind_of_error {job : Job σ α} {f : α → Job σ β} {e : RunError} {t : σ}
    {r : Except RunError β} (h : job.Ends s (.error e) t) :
    (job >>= f).Ends s r s' ↔ r = .error e ∧ s' = t := by
  obtain ⟨he, rfl⟩ := h
  change Ends (Job.bind job f) s r s' ↔ _
  unfold Ends run Job.bind at *
  simp only [he]
  exact and_congr eq_comm eq_comm

/-- A look that comes first decides how the rest goes on. -/
theorem ends_inspect_bind {look : σ → Traced RunError α} {f : α → Job σ β}
    {r : Except RunError β} : (inspect look >>= f).Ends s r s' ↔
      match (look s).result with
      | .ok a => (f a).Ends s r s'
      | .error e => r = .error e ∧ s' = s := by
  cases hlook : (look s).result with
  | ok a => exact ends_bind_of_ok ⟨hlook, rfl⟩
  | error e => exact ends_bind_of_error ⟨hlook, rfl⟩

theorem ends_lift_bind {x : Traced RunError α} {f : α → Job σ β} {r : Except RunError β} :
    (lift x >>= f).Ends s r s' ↔
      match x.result with
      | .ok a => (f a).Ends s r s'
      | .error e => r = .error e ∧ s' = s :=
  ends_inspect_bind

/-! ## What jobs do to the state -/

/-- Whatever the job begins in, and however it ends, the two states are related. -/
def Moves (job : Job σ α) (R : σ → σ → Prop) : Prop := ∀ s, R s (job.run s).2

variable {R : σ → σ → Prop}

theorem moves_inspect (hrefl : ∀ s, R s s) (look : σ → Traced RunError α) :
    (inspect look).Moves R := hrefl

theorem moves_change {ε : Type} {wrap : ε → RunError} {step : σ → Except ε α × σ}
    (h : ∀ s, R s (step s).2) : (change wrap step).Moves R := h

/-- A transitive relation is kept up step by step; what comes after a step may count on its
result. -/
theorem Moves.bind {job : Job σ α} {f : α → Job σ β} (htrans : ∀ {s t u}, R s t → R t u → R s u)
    (hjob : job.Moves R) (hf : ∀ s a, (job.run s).1.result = .ok a → (f a).Moves R) :
    (job >>= f).Moves R := by
  intro s
  have hfirst := hjob s
  have hrest := hf s
  change R s (Job.bind job f s).2
  rw [run] at hfirst hrest
  rw [Job.bind]
  generalize job s = ended at hfirst hrest ⊢
  obtain ⟨⟨log, result⟩, t⟩ := ended
  cases result with
  | error e => exact hfirst
  | ok a => exact htrans hfirst (hrest a rfl t)

end Job

end AssetPack
