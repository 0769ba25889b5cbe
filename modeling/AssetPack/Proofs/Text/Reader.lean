import AssetPack.Text.Reader
import Mathlib.Data.List.Infix

/-!
# What readers leave

A reader takes a text from its front: whatever it leaves is an end of the text (`TakesFront`). That
is kept by every way to put readers together, so it holds of all that are made of such as take
characters.

Where a value was read is no part of the value. A reader that is to tell it asks `here`; values that
tell more than those of another reader are made into those of the other, also under a repetition
(`many_map`).
-/

set_option autoImplicit false

namespace AssetPack.Reader

variable {α β : Type} {p q : Reader α} {f : α → Reader β} {s r : List Char} {a : α} {b : β}

/-! ## Readers taken apart -/

theorem bind_eq_some {x : β × List Char} :
    (p >>= f) s = some x ↔ ∃ a r, p s = some (a, r) ∧ f a r = some x := by
  change (p s).bind (fun y => f y.1 y.2) = some x ↔ _
  rw [Option.bind_eq_some_iff, Prod.exists]

/-- After a look at the next character, the reader that was chosen for it. -/
theorem peek?_bind_eq_some {g : Option Char → Reader β} {x : β × List Char}
    (h : (peek? >>= g) s = some x) : ∃ q, g s.head? = q ∧ q s = some x := ⟨_, rfl, h⟩

theorem pure_eq_some {x : α × List Char} : (pure a : Reader α) s = some x ↔ x = (a, s) := by
  change some (a, s) = some x ↔ _
  rw [Option.some.injEq, eq_comm]

theorem map_apply (g : α → β) (p : Reader α) (s : List Char) :
    (g <$> p) s = (p s).map fun x => (g x.1, x.2) := by
  change (p s).bind _ = _
  cases p s <;> rfl

theorem map_eq_some {g : α → β} {x : β × List Char} :
    (g <$> p) s = some x ↔ ∃ a r, p s = some (a, r) ∧ x = (g a, r) := by
  rw [map_apply, Option.map_eq_some_iff, Prod.exists]
  simp only [eq_comm]

theorem orElse_eq_some {x : α × List Char} (h : (p <|> q) s = some x) :
    p s = some x ∨ q s = some x := by
  change (p s <|> q s) = some x at h
  cases hp : p s with
  | none =>
    rw [hp] at h
    exact .inr h
  | some y =>
    rw [hp] at h
    exact .inl h

theorem optional_eq_some {o : Option α} (h : optional p s = some (o, r)) :
    (∃ a, o = some a ∧ p s = some (a, r)) ∨ o = none ∧ r = s := by
  rcases orElse_eq_some h with h | h
  · obtain ⟨a, t, hp, h⟩ := map_eq_some.mp h
    cases h
    exact .inl ⟨a, rfl, hp⟩
  · cases h
    exact .inr ⟨rfl, rfl⟩

theorem exactly_eq_some {t : List Char} {u : Unit} :
    exactly t s = some (u, r) ↔ s = t ++ r := by
  rw [exactly, Option.map_eq_some_iff]
  simp [List.isPrefixOf?_eq_some_iff_append_eq, eq_comm]

/-! ## Taking from the front -/

/-- Whatever the reader leaves is an end of the text. -/
def TakesFront (p : Reader α) : Prop := ∀ s a r, p s = some (a, r) → r <:+ s

namespace TakesFront

theorem pure (a : α) : TakesFront (pure a) := by
  intro s b r h
  cases h
  exact List.suffix_rfl

theorem bind (hp : TakesFront p) (hf : ∀ a, TakesFront (f a)) : TakesFront (p >>= f) := by
  intro s b r h
  obtain ⟨a, t, hpa, hfa⟩ := bind_eq_some.mp h
  exact (hf a t b r hfa).trans (hp s a t hpa)

theorem map (g : α → β) (hp : TakesFront p) : TakesFront (g <$> p) :=
  bind hp fun a => pure (g a)

theorem orElse (hp : TakesFront p) (hq : TakesFront q) : TakesFront (p <|> q) := by
  intro s a r h
  rcases orElse_eq_some h with h | h
  · exact hp s a r h
  · exact hq s a r h

theorem optional (hp : TakesFront p) : TakesFront (optional p) :=
  orElse (map _ hp) (pure _)

theorem refuse : TakesFront (refuse : Reader α) := nofun

theorem peek? : TakesFront peek? := by
  intro s a r h
  cases h
  exact List.suffix_rfl

theorem nextIf (pass : Char → Bool) : TakesFront (nextIf pass) := by
  intro s a r h
  cases s with
  | nil => cases h
  | cons c t =>
    simp only [Reader.nextIf] at h
    split at h
    · cases h
      exact List.suffix_cons _ _
    · cases h

theorem exactly (t : List Char) : TakesFront (exactly t) := by
  intro s a r h
  rw [exactly_eq_some.mp h]
  exact List.suffix_append t r

theorem takeWhile (pass : Char → Bool) : TakesFront (takeWhile pass) := by
  intro s a r h
  cases h
  exact List.dropWhile_suffix pass

theorem atEnd : TakesFront atEnd := by
  intro s a r h
  cases s with
  | nil =>
    cases h
    exact List.suffix_rfl
  | cons c s => cases h

/-- So does one that is taken again and again. -/
theorem many (hp : TakesFront p) : TakesFront (many p) := by
  intro s
  induction s using many.induct p with
  | case1 s hnone =>
    intro as r h
    rw [Reader.many, hnone] at h
    cases h
    exact List.suffix_rfl
  | case2 s a t hsome hshorter ih =>
    intro as r h
    rw [Reader.many, hsome] at h
    simp only [if_pos hshorter] at h
    obtain ⟨⟨rest, u⟩, hrest, h⟩ := Option.map_eq_some_iff.mp h
    cases h
    exact (ih rest u hrest).trans (hp s a t hsome)
  | case3 s a t hsome hlong =>
    intro as r h
    rw [Reader.many, hsome] at h
    simp only [if_neg hlong] at h
    cases h

end TakesFront

/-! ## Repetitions -/

/-- A repetition of changed values changes the values of the repetition. -/
theorem many_map (g : α → β) (p : Reader α) : many (g <$> p) = List.map g <$> many p := by
  funext s
  rw [map_apply]
  induction s using many.induct p with
  | case1 s hnone =>
    rw [many, many, map_apply, hnone]
    rfl
  | case2 s a t hsome hshorter ih =>
    rw [many, many, map_apply, hsome]
    simp only [Option.map_some, if_pos hshorter, ih, Option.map_map]
    rfl
  | case3 s a t hsome hlong =>
    rw [many, many, map_apply, hsome]
    simp only [Option.map_some, if_neg hlong, Option.map_none]

/-- So does an attempt. -/
theorem optional_map (g : α → β) (p : Reader α) :
    optional (g <$> p) = Option.map g <$> optional p := by
  have htry : ∀ {γ : Type} (q : Reader γ) (s : List Char),
      optional q s = ((some <$> q) s <|> some (none, s)) := fun _ _ => rfl
  funext s
  rw [htry, map_apply, map_apply, map_apply, htry, map_apply]
  cases p s <;> rfl

theorem run?_map (g : α → β) (p : Reader α) (s : List Char) :
    (g <$> p).run? s = (p.run? s).map g := by
  rw [run?, run?, map_apply]
  rcases p s with _ | ⟨a, _ | ⟨c, r⟩⟩ <;> rfl

theorem run?_eq_some : p.run? s = some a ↔ p s = some (a, []) := by
  rw [run?]
  rcases p s with _ | ⟨a, _ | ⟨c, r⟩⟩ <;> simp

/-- Each value of a repetition was read somewhere in the text. -/
theorem of_mem_many (hp : TakesFront p) {as : List α} (h : many p s = some (as, r)) (ha : a ∈ as) :
    ∃ u t, u <:+ s ∧ p u = some (a, t) := by
  induction s using many.induct p generalizing as r with
  | case1 s hnone =>
    rw [many, hnone] at h
    cases h
    cases ha
  | case2 s b t hsome hshorter ih =>
    rw [many, hsome] at h
    simp only [if_pos hshorter] at h
    obtain ⟨⟨rest, u⟩, hrest, h⟩ := Option.map_eq_some_iff.mp h
    cases h
    rcases List.mem_cons.mp ha with rfl | ha
    · exact ⟨s, t, List.suffix_rfl, hsome⟩
    · obtain ⟨u, t', hsuffix, hread⟩ := ih hrest ha
      exact ⟨u, t', hsuffix.trans (hp s b t hsome), hread⟩
  | case3 s b t hsome hlong =>
    rw [many, hsome] at h
    simp only [if_neg hlong] at h
    cases h

/-! ## Where a reader is -/

/-- The text that is left, which stays. -/
def here : Reader (List Char) := fun s => some (s, s)

theorem TakesFront.here : TakesFront here := by
  intro s a r h
  cases h
  exact List.suffix_rfl

/-! ## What a reader gives -/

/-- Whatever the reader gives has the property. -/
def Gives (P : α → Prop) (p : Reader α) : Prop := ∀ s a r, p s = some (a, r) → P a

namespace Gives

variable {P : β → Prop}

theorem pure (hb : P b) : Gives P (pure b) := by
  intro s c r h
  cases h
  exact hb

theorem refuse : Gives P (refuse : Reader β) := nofun

theorem bind (hf : ∀ a, Gives P (f a)) : Gives P (p >>= f) := by
  intro s b r h
  obtain ⟨a, t, -, hfa⟩ := bind_eq_some.mp h
  exact hf a t b r hfa

theorem orElse {p q : Reader β} (hp : Gives P p) (hq : Gives P q) : Gives P (p <|> q) := by
  intro s a r h
  rcases orElse_eq_some h with h | h
  · exact hp s a r h
  · exact hq s a r h

end Gives

end AssetPack.Reader
