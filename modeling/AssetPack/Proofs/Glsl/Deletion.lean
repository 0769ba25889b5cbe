import AssetPack.Proofs.Glsl.ReleaseForm

/-!
# Deleting spaces one at a time

`dropSpaces` decides about every space of a line at once, from the line as it was given. The same
can be done in small steps: take away any one space whose neighbours need no separator (`Deletes`),
and go on until there is none. In a line without two spaces side by side a step changes nothing that
another one looks at, for the neighbours of a space are never spaces and are never taken away. So
`dropSpaces` gives the same for the line before a step and for the line after it
(`Deletes.dropSpaces_eq`), and everything else follows from that: whatever is deleted in whatever
order, what can be reached in the end is one line, the one that `dropSpaces` gives in one pass.
-/

set_option autoImplicit false

namespace AssetPack.Glsl

open AssetPack.Text

variable {line s t u : List Char} {n m : Nat}

/-- One space goes that stands between two characters and does not have to separate them. -/
inductive Deletes : List Char → List Char → Prop
  | space (before : List Char) {l r : Char} (after : List Char) (h : needsSeparator l r = false) :
      Deletes (before ++ l :: ' ' :: r :: after) (before ++ l :: r :: after)

/-- So many spaces go, one after the other. -/
inductive Deletions : Nat → List Char → List Char → Prop
  | refl (s : List Char) : Deletions 0 s s
  | delete {n : Nat} {s t u : List Char} (h : Deletes s t) (rest : Deletions n t u) :
      Deletions (n + 1) s u

/-! ## One character of a pass -/

theorem dropSpaces_none_cons (c : Char) (r : List Char) :
    dropSpaces none (c :: r) = c :: dropSpaces (some c) r := rfl

theorem dropSpaces_some_cons (l c d : Char) (r : List Char) :
    dropSpaces (some l) (c :: d :: r) =
      if c == ' ' && l != ' ' && d != ' ' && !needsSeparator l d then dropSpaces (some c) (d :: r)
      else c :: dropSpaces (some c) (d :: r) := rfl

/-- Of what is behind a character, its decision takes in the next one only. -/
theorem dropSpaces_cons_congr {c : Char} {r r' : List Char} (hhead : r.head? = r'.head?)
    (hrest : dropSpaces (some c) r = dropSpaces (some c) r') (left : Option Char) :
    dropSpaces left (c :: r) = dropSpaces left (c :: r') := by
  cases left with
  | none => rw [dropSpaces_none_cons, dropSpaces_none_cons, hrest]
  | some l =>
    cases r with
    | nil => rw [List.head?_eq_none_iff.mp hhead.symm]
    | cons d r =>
      obtain ⟨r', rfl⟩ := List.head?_eq_some_iff.mp hhead.symm
      rw [dropSpaces_some_cons, dropSpaces_some_cons, hrest]

/-! ## One step -/

theorem Deletes.length_eq (h : Deletes s t) : s.length = t.length + 1 := by
  cases h
  simp
  omega

theorem Deletes.cons (c : Char) (h : Deletes s t) : Deletes (c :: s) (c :: t) := by
  cases h with
  | space before after h => exact .space (c :: before) after h

/-- The neighbours of a space are no spaces, so they may meet. -/
theorem Deletes.isChain (h : Deletes s t) (hs : s.IsChain NotBothSpaces) :
    t.IsChain NotBothSpaces := by
  cases h with
  | @space before l r after h =>
    rw [List.isChain_append] at hs ⊢
    obtain ⟨hbefore, hmid, hseam⟩ := hs
    rw [List.isChain_cons_cons, List.isChain_cons_cons] at hmid
    refine ⟨hbefore, List.isChain_cons_cons.mpr ⟨?_, hmid.2.2⟩, hseam⟩
    exact fun hboth => hmid.1 ⟨hboth.1, rfl⟩

/-- What one pass gives does not depend on whether a space is gone already. -/
theorem Deletes.dropSpaces_eq (h : Deletes s t) (hs : s.IsChain NotBothSpaces)
    (left : Option Char) : dropSpaces left s = dropSpaces left t := by
  cases h with
  | @space before l r after h =>
    induction before generalizing left with
    | nil =>
      rw [List.nil_append, List.isChain_cons_cons, List.isChain_cons_cons] at hs
      have hl : l ≠ ' ' := fun heq => hs.1 ⟨heq, rfl⟩
      have hr : r ≠ ' ' := fun heq => hs.2.1 ⟨rfl, heq⟩
      have hgone : dropSpaces (some l) (' ' :: r :: after) = dropSpaces (some ' ') (r :: after) := by
        simp [dropSpaces_some_cons, hl, hr, h]
      rw [List.nil_append, List.nil_append, dropSpaces_visible hl, dropSpaces_visible hl, hgone,
        dropSpaces_visible hr, dropSpaces_visible hr]
    | cons c before ih =>
      refine dropSpaces_cons_congr ?_ (ih (some c) hs.tail) left
      cases before <;> rfl

/-- Where nothing can be deleted, one pass deletes nothing. -/
theorem dropSpaces_eq_self {left : Option Char} (hnone : ∀ t, ¬ Deletes s t)
    (hleft : ∀ l, left = some l → ∀ t, ¬ Deletes (l :: s) t) : dropSpaces left s = s := by
  induction s generalizing left with
  | nil => rfl
  | cons c r ih =>
    have hrest : dropSpaces (some c) r = r := by
      refine ih (fun t ht => hnone _ (ht.cons c)) ?_
      intro l hl
      cases hl
      exact hnone
    cases left with
    | none => rw [dropSpaces_none_cons, hrest]
    | some l =>
      cases r with
      | nil => rfl
      | cons n r =>
        rw [dropSpaces_some_cons, hrest]
        refine if_neg fun hgone => ?_
        simp only [Bool.and_eq_true, beq_iff_eq, bne_iff_ne, Bool.not_eq_true'] at hgone
        obtain ⟨⟨⟨rfl, -⟩, -⟩, hkeep⟩ := hgone
        exact hleft l rfl _ (.space [] r hkeep)

/-! ## All the steps -/

theorem Deletions.length_eq (h : Deletions n s t) : s.length = t.length + n := by
  induction h with
  | refl s => rfl
  | delete h _ ih =>
    rw [h.length_eq, ih]
    omega

theorem Deletions.isChain (h : Deletions n s t) (hs : s.IsChain NotBothSpaces) :
    t.IsChain NotBothSpaces := by
  induction h with
  | refl s => exact hs
  | delete h _ ih => exact ih (h.isChain hs)

theorem Deletions.dropSpaces_eq (h : Deletions n s t) (hs : s.IsChain NotBothSpaces) :
    dropSpaces none s = dropSpaces none t := by
  induction h with
  | refl s => rfl
  | delete h _ ih => rw [h.dropSpaces_eq hs, ih (h.isChain hs)]

/-- The line that one pass gives can be reached step by step. -/
theorem exists_deletions (hs : s.IsChain NotBothSpaces) : ∃ n, Deletions n s (dropSpaces none s) := by
  induction hn : s.length using Nat.strong_induction_on generalizing s with
  | _ len ih =>
    by_cases hnone : ∀ t, ¬ Deletes s t
    · rw [dropSpaces_eq_self hnone fun l hl => absurd hl (by simp)]
      exact ⟨0, .refl s⟩
    · simp only [not_forall, not_not] at hnone
      obtain ⟨t, ht⟩ := hnone
      have hlt : t.length < len := by
        rw [← hn, ht.length_eq]
        exact Nat.lt_succ_self _
      obtain ⟨n, hrest⟩ := ih t.length hlt (ht.isChain hs) rfl
      rw [ht.dropSpaces_eq hs none]
      exact ⟨n + 1, .delete ht hrest⟩

/-- A line from which nothing more can be deleted is the one that a pass over it gives. -/
theorem not_deletes_dropSpaces (hs : s.IsChain NotBothSpaces) (t : List Char) :
    ¬ Deletes (dropSpaces none s) t := by
  intro ht
  obtain ⟨n, hreach⟩ := exists_deletions hs
  have hchain := hreach.isChain hs
  have hfixed : dropSpaces none (dropSpaces none s) = dropSpaces none s :=
    (hreach.dropSpaces_eq hs).symm
  -- From `t` the same line would be reached again, which is longer than `t`.
  obtain ⟨m, hback⟩ := exists_deletions (ht.isChain hchain)
  rw [← ht.dropSpaces_eq hchain none, hfixed] at hback
  have hshorter := ht.length_eq
  have hlonger := hback.length_eq
  omega

/-- **One pass is what any order of deletions comes to.** From a line without two spaces side by side
so many spaces can be deleted and no more, whichever is taken first; what has been deleted so far can
always be completed to the line that one pass gives; and where nothing more can be deleted, that
line is reached. A second pass changes nothing. -/
theorem deletions_end_in_dropSpaces (hs : s.IsChain NotBothSpaces) :
    (∃ n, Deletions n s (dropSpaces none s) ∧
      ∀ m t, Deletions m s t → m ≤ n ∧ Deletions (n - m) t (dropSpaces none s) ∧
        ((∀ u, ¬ Deletes t u) ↔ t = dropSpaces none s)) ∧
    dropSpaces none (dropSpaces none s) = dropSpaces none s := by
  obtain ⟨n, hn⟩ := exists_deletions hs
  refine ⟨⟨n, hn, ?_⟩, (hn.dropSpaces_eq hs).symm⟩
  intro m t hm
  have ht := hm.isChain hs
  obtain ⟨k, hk⟩ := exists_deletions ht
  rw [← hm.dropSpaces_eq hs] at hk
  -- The three runs are counted by the characters that are gone.
  have hcount : n = m + k := by
    have hlong := hn.length_eq
    have hfront := hm.length_eq
    have hback := hk.length_eq
    omega
  refine ⟨by omega, ?_, ?_⟩
  · rwa [hcount, Nat.add_sub_cancel_left]
  · constructor
    · intro hnone
      rw [hm.dropSpaces_eq hs]
      exact (dropSpaces_eq_self hnone fun l hl => absurd hl (by simp)).symm
    · intro heq
      rw [heq]
      exact not_deletes_dropSpaces hs

/-- Three spaces in a row of single characters, of which the middle one stays. -/
theorem deletions_end_in_dropSpaces_overlapping :
    ("a + + b".toList).IsChain NotBothSpaces ∧ dropSpaces none "a + + b".toList = "a+ +b".toList ∧
      ∃ n, Deletions n "a + + b".toList "a+ +b".toList ∧
        ∀ m t, Deletions m "a + + b".toList t → m ≤ n ∧ Deletions (n - m) t "a+ +b".toList ∧
          ((∀ u, ¬ Deletes t u) ↔ t = "a+ +b".toList) := by
  have hchain : ("a + + b".toList).IsChain NotBothSpaces := by
    simp [NotBothSpaces]
  have hpass : dropSpaces none "a + + b".toList = "a+ +b".toList := by decide
  have h := (deletions_end_in_dropSpaces hchain).1
  rw [hpass] at h
  exact ⟨hchain, hpass, h⟩

end AssetPack.Glsl
