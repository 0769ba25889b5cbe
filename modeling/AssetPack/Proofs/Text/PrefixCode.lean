import Mathlib.Data.List.Basic

/-!
# Words that end themselves

What is digested for a fingerprint is a row of words without lengths and without anything between
them. It can be taken apart again because each kind of word is a *prefix code*: where one begins,
the characters say where it ends and what it was written for, and no character after it is looked
at. `PrefixCode f key` says so without a reader: two rows that begin with words `f x` and `f y` and
agree have agreed in the keys of `x` and `y` and in what follows. Keys are there because a word may
say less than it was made from; a digest stands for the bytes that were digested.

There are four ways to be such a code: to have a reader (`of_reader`), one length (`of_length`), a
mark at the end that is not in the word (`until_mark`), or to be a list of words of a code up to a
mark that none of them begins with (`list_until_mark`).
-/

set_option autoImplicit false

namespace AssetPack.Text

variable {α β κ : Type}

/-- Wherever a word stands in front, it tells the key that it was written for and where it ends. -/
def PrefixCode (f : α → List β) (key : α → κ) : Prop :=
  ∀ ⦃x y : α⦄ ⦃r s : List β⦄, f x ++ r = f y ++ s → key x = key y ∧ r = s

namespace PrefixCode

theorem of_reader {f : α → List β} {key : α → κ} (read : List β → Option (κ × List β))
    (h : ∀ x r, read (f x ++ r) = some (key x, r)) : PrefixCode f key := by
  intro x y r s hxy
  have hx := h x r
  rw [hxy, h y s] at hx
  simpa [eq_comm] using hx

theorem of_length {f : α → List β} {key : α → κ} {n : Nat} (hn : ∀ x, (f x).length = n)
    (hf : ∀ x y, f x = f y → key x = key y) : PrefixCode f key := by
  intro x y r s h
  obtain ⟨hxy, hrs⟩ := List.append_inj h ((hn x).trans (hn y).symm)
  exact ⟨hf x y hxy, hrs⟩

theorem until_mark {f : α → List β} {key : α → κ} {mark : β} (hmark : ∀ x, mark ∉ f x)
    (hf : ∀ x y, f x = f y → key x = key y) : PrefixCode (fun x => f x ++ [mark]) key := by
  have split : ∀ {a b r s : List β}, mark ∉ a → mark ∉ b → a ++ mark :: r = b ++ mark :: s →
      a = b ∧ r = s := by
    intro a
    induction a with
    | nil =>
      intro b r s _ hb h
      cases b with
      | nil => exact ⟨rfl, (List.cons.inj h).2⟩
      | cons c b => exact absurd ((List.cons.inj h).1 ▸ List.mem_cons_self) hb
    | cons c a ih =>
      intro b r s ha hb h
      cases b with
      | nil => exact absurd ((List.cons.inj h).1 ▸ List.mem_cons_self) ha
      | cons d b =>
        obtain ⟨rfl, hrest⟩ := List.cons.inj h
        obtain ⟨rfl, hrs⟩ := ih (List.not_mem_of_not_mem_cons ha)
          (List.not_mem_of_not_mem_cons hb) hrest
        exact ⟨rfl, hrs⟩
  intro x y r s h
  rw [List.append_assoc, List.append_assoc] at h
  obtain ⟨hxy, hrs⟩ := split (hmark x) (hmark y) h
  exact ⟨hf x y hxy, hrs⟩

theorem congr {f g : α → List β} {key : α → κ} (hf : PrefixCode f key) (h : ∀ x, g x = f x) :
    PrefixCode g key :=
  funext h ▸ hf

/-- What the key determines may stand for the key. -/
theorem rekey {κ' : Type} {f : α → List β} {key : α → κ} {key' : α → κ'} (hf : PrefixCode f key)
    (hkey : ∀ x y, key x = key y → key' x = key' y) : PrefixCode f key' := fun x y _ _ h =>
  (hf h).imp_left (hkey x y)

/-- A word in front of every word changes nothing. -/
theorem after {f : α → List β} {key : α → κ} (hf : PrefixCode f key) (w : List β) :
    PrefixCode (fun x => w ++ f x) key := by
  intro x y r s h
  rw [List.append_assoc, List.append_assoc] at h
  exact hf (List.append_cancel_left h)

/-- Nor does one behind it. -/
theorem before {f : α → List β} {key : α → κ} (hf : PrefixCode f key) (w : List β) :
    PrefixCode (fun x => f x ++ w) key := by
  intro x y r s h
  rw [List.append_assoc, List.append_assoc] at h
  obtain ⟨hkey, hrs⟩ := hf h
  exact ⟨hkey, List.append_cancel_left hrs⟩

/-- Two words of one thing, one behind the other, tell both their keys. -/
theorem append {f g : α → List β} {κ' : Type} {key : α → κ} {key' : α → κ'}
    (hf : PrefixCode f key) (hg : PrefixCode g key') :
    PrefixCode (fun x => f x ++ g x) fun x => (key x, key' x) := by
  intro x y r s h
  rw [List.append_assoc, List.append_assoc] at h
  obtain ⟨hkey, hrest⟩ := hf h
  obtain ⟨hkey', hrs⟩ := hg hrest
  exact ⟨Prod.ext hkey hkey', hrs⟩

/-- The words of a part of each thing. -/
theorem comp {γ : Type} {f : α → List β} {key : α → κ} (hf : PrefixCode f key) (part : γ → α) :
    PrefixCode (fun x => f (part x)) fun x => key (part x) :=
  fun _ _ _ _ h => hf h

/-- A list of words is told from the list's beginning to its end. -/
theorem map_eq_of_flatMap_eq {f : α → List β} {key : α → κ} (hf : PrefixCode f key)
    (hne : ∀ x, f x ≠ []) {xs ys : List α} (h : xs.flatMap f = ys.flatMap f) :
    xs.map key = ys.map key := by
  induction xs generalizing ys with
  | nil =>
    cases ys with
    | nil => rfl
    | cons y ys => exact absurd (List.append_eq_nil_iff.mp h.symm).1 (hne y)
  | cons x xs ih =>
    cases ys with
    | nil => exact absurd (List.append_eq_nil_iff.mp h).1 (hne x)
    | cons y ys =>
      rw [List.flatMap_cons, List.flatMap_cons] at h
      obtain ⟨hkey, hrest⟩ := hf h
      rw [List.map_cons, List.map_cons, hkey, ih hrest]

theorem list_until_mark {f : α → List β} {key : α → κ} (hf : PrefixCode f key) {mark : β}
    (hne : ∀ x, f x ≠ []) (hmark : ∀ x, (f x).head? ≠ some mark) :
    PrefixCode (fun xs : List α => xs.flatMap f ++ [mark]) (List.map key) := by
  -- Where one list ends, the other cannot go on: its next word would begin with the mark.
  have ended : ∀ {x : α} {r s : List β}, mark :: r ≠ f x ++ s := by
    intro x r s h
    have hhead := congrArg List.head? h
    rw [List.head?_append_of_ne_nil _ (hne x)] at hhead
    exact hmark x hhead.symm
  intro xs
  induction xs with
  | nil =>
    intro ys r s h
    cases ys with
    | nil => exact ⟨rfl, by simpa using h⟩
    | cons y ys => exact absurd (by simpa using h) ended
  | cons x xs ih =>
    intro ys r s h
    cases ys with
    | nil => exact absurd (by simpa using h.symm) ended
    | cons y ys =>
      simp only [List.flatMap_cons, List.append_assoc] at h
      obtain ⟨hkey, hrest⟩ := hf h
      obtain ⟨hkeys, hrs⟩ := ih (by simpa using hrest)
      exact ⟨by rw [List.map_cons, List.map_cons, hkey, hkeys], hrs⟩

end PrefixCode

end AssetPack.Text
