import Mathlib.Data.List.Basic
import AssetPack.Asset.Identifier

/-!
# What is left of an identifier in mixed case

Mixed case keeps the *words* of a name (`words`): its runs of letters, without regard to case, and
its digits one by one. It forgets where underscores stood and which letters were capital. A word
begins with a capital or a digit and goes on in lower case, so the words can be read off again
(`uncaps`), and two names have the same accessor just when they have the same words
(`accessorName_inj`). A field keeps the characters up to the first underscore as they were, and what
stands there may look like the beginning of a word; `fieldName_inj` says how far that goes.
-/

set_option autoImplicit false

namespace AssetPack.Identifier

/-! ## Letters -/

theorem toNat_lt_of_isWordChar {c : Char} (hc : Text.isWordChar c = true) : c.toNat < 128 := by
  have halpha : c.isAlpha = (c.isUpper || c.isLower) := rfl
  have hupper : c.isUpper = decide (c.val ≥ 'A'.val ∧ c.val ≤ 'Z'.val) := rfl
  have hlower : c.isLower = (decide (c.val ≥ 'a'.val) && decide (c.val ≤ 'z'.val)) := rfl
  simp only [Text.isWordChar, Char.isAlphanum, halpha, hupper, hlower, Char.isDigit,
    Bool.or_eq_true, Bool.and_eq_true, decide_eq_true_eq, beq_iff_eq, ge_iff_le,
    UInt32.le_iff_toNat_le] at hc
  rcases hc with ((⟨-, h⟩ | ⟨-, h⟩) | ⟨-, h⟩) | rfl
  · exact Nat.lt_of_le_of_lt h (by decide)
  · exact Nat.lt_of_le_of_lt h (by decide)
  · exact Nat.lt_of_le_of_lt h (by decide)
  · decide

/-- What holds of the first 128 characters holds of every letter, digit and underscore. -/
theorem of_isWordChar {P : Char → Prop} (h : ∀ n < 128, P (Char.ofNat n)) {c : Char}
    (hc : Text.isWordChar c = true) : P c := by
  have hP := h c.toNat (toNat_lt_of_isWordChar hc)
  rwa [Char.ofNat_toNat] at hP

theorem isWordChar_of_isAlphanum {c : Char} (hc : c.isAlphanum = true) :
    Text.isWordChar c = true := by
  simp [Text.isWordChar, hc]

theorem isAlphanum_of_isWordChar {c : Char} (hc : Text.isWordChar c = true) (hne : c ≠ '_') :
    c.isAlphanum = true := by
  simpa [Text.isWordChar, hne] using hc

theorem isWordChar_of_isAlpha {c : Char} (hc : c.isAlpha = true) : Text.isWordChar c = true := by
  simp [Text.isWordChar, Char.isAlphanum, hc]

theorem toUpper_toLower {c : Char} (hc : Text.isWordChar c = true) :
    c.toLower.toUpper = c.toUpper :=
  of_isWordChar (P := fun c => c.toLower.toUpper = c.toUpper) (by decide +kernel) hc

theorem toLower_toUpper {c : Char} (hc : Text.isWordChar c = true) :
    c.toUpper.toLower = c.toLower :=
  of_isWordChar (P := fun c => c.toUpper.toLower = c.toLower) (by decide +kernel) hc

theorem toUpper_of_not_isAlpha {c : Char} (hc : Text.isWordChar c = true)
    (h : c.isAlpha = false) : c.toUpper = c :=
  of_isWordChar (P := fun c => c.isAlpha = false → c.toUpper = c) (by decide +kernel) hc h

theorem isLower_toUpper {c : Char} (hc : Text.isWordChar c = true) : c.toUpper.isLower = false :=
  of_isWordChar (P := fun c => c.toUpper.isLower = false) (by decide +kernel) hc

theorem isLower_toLower {c : Char} (hc : c.isAlpha = true) : c.toLower.isLower = true :=
  of_isWordChar (P := fun c => c.isAlpha = true → c.toLower.isLower = true) (by decide +kernel)
    (isWordChar_of_isAlpha hc) hc

/-! ## Words -/

/-- The words of a name: runs of letters in lower case, and other characters one by one.
Underscores belong to none. -/
def words : List Char → List (List Char)
  | [] => []
  | c :: r =>
    if c = '_' then words r
    else if c.isAlpha && r.head?.any Char.isAlpha then
      match words r with
      | [] => [[c.toLower]]
      | w :: ws => (c.toLower :: w) :: ws
    else [c.toLower] :: words r

/-- A word with a capital. -/
def capitalize : List Char → List Char
  | [] => []
  | c :: r => c.toUpper :: r

/-- Words with capitals, without anything between them. -/
def caps (ws : List (List Char)) : List Char := ws.flatMap capitalize

theorem caps_append (ws vs : List (List Char)) : caps (ws ++ vs) = caps ws ++ caps vs :=
  List.flatMap_append

/-- What words look like: a letter in lower case or a digit, and then letters in lower case. -/
def IsWord (w : List Char) : Prop :=
  ∃ (c : Char) (r : List Char), w = c.toLower :: r ∧ c.isAlphanum = true ∧ ∀ a ∈ r, a.isLower = true

/-- Reads words off their capitals; letters in front of the first one are kept apart. -/
def uncaps : List Char → List Char × List (List Char)
  | [] => ([], [])
  | c :: r =>
    if c.isLower then (c :: (uncaps r).1, (uncaps r).2)
    else ([], (c.toLower :: (uncaps r).1) :: (uncaps r).2)

theorem uncaps_append (s : List Char) {t : List Char} (ht : (uncaps t).1 = []) :
    uncaps (s ++ t) = ((uncaps s).1, (uncaps s).2 ++ (uncaps t).2) := by
  induction s with
  | nil => exact Prod.ext ht rfl
  | cons c s ih =>
    rw [List.cons_append, uncaps, uncaps, ih]
    split <;> rfl

theorem uncaps_lower {r : List Char} (hr : ∀ a ∈ r, a.isLower = true) : uncaps r = (r, []) := by
  induction r with
  | nil => rfl
  | cons a r ih =>
    rw [List.forall_mem_cons] at hr
    rw [uncaps, if_pos hr.1, ih hr.2]

theorem uncaps_caps {ws : List (List Char)} (hws : ∀ w ∈ ws, IsWord w) :
    uncaps (caps ws) = ([], ws) := by
  induction ws with
  | nil => rfl
  | cons w ws ih =>
    rw [List.forall_mem_cons] at hws
    obtain ⟨c, r, rfl, hc, hr⟩ := hws.1
    have hrest : (uncaps (caps ws)).1 = [] := congrArg Prod.fst (ih hws.2)
    have hlow : uncaps (r ++ caps ws) = (r, ws) := by
      rw [uncaps_append r hrest, uncaps_lower hr, ih hws.2]
      rfl
    have hc := isWordChar_of_isAlphanum hc
    show uncaps (c.toLower.toUpper :: (r ++ caps ws)) = _
    rw [uncaps, toUpper_toLower hc, isLower_toUpper hc, toLower_toUpper hc, hlow]
    rfl

/-- Behind what is made of words, only words can make up the rest. -/
theorem append_caps_inj {s : List Char} {ws vs : List (List Char)} (hws : ∀ w ∈ ws, IsWord w)
    (hvs : ∀ v ∈ vs, IsWord v) :
    s ++ caps vs = caps ws ↔ ∃ us, s = caps us ∧ ws = us ++ vs := by
  constructor
  · intro h
    have hread := congrArg uncaps h
    rw [uncaps_append s (congrArg Prod.fst (uncaps_caps hvs)), uncaps_caps hvs,
      uncaps_caps hws] at hread
    have hsplit : ws = (uncaps s).2 ++ vs := (congrArg Prod.snd hread).symm
    refine ⟨(uncaps s).2, ?_, hsplit⟩
    rw [hsplit, caps_append] at h
    exact List.append_cancel_right h
  · rintro ⟨us, rfl, rfl⟩
    exact (caps_append us vs).symm

theorem caps_inj {ws vs : List (List Char)} (hws : ∀ w ∈ ws, IsWord w)
    (hvs : ∀ v ∈ vs, IsWord v) : caps ws = caps vs ↔ ws = vs := by
  constructor
  · intro h
    have hread := congrArg uncaps h
    rw [uncaps_caps hws, uncaps_caps hvs] at hread
    exact congrArg Prod.snd hread
  · exact congrArg caps

/-! ## Title case -/

/-- The text in title case, without underscores. -/
def title (afterLetter : Bool) (s : List Char) : List Char :=
  (titleCase afterLetter s).filter (· != '_')

theorem camelCase_eq (s : List Char) :
    camelCase s = s.takeWhile (· != '_') ++ title false (s.dropWhile (· != '_')) := rfl

theorem title_cons_alpha {c : Char} (hc : c.isAlpha = true) (afterLetter : Bool) (r : List Char) :
    title afterLetter (c :: r) =
      (if afterLetter then c.toLower else c.toUpper) :: title true r := by
  have hlower : c.toLower ≠ '_' :=
    of_isWordChar (P := fun c => c.isAlpha = true → c.toLower ≠ '_') (by decide +kernel)
      (isWordChar_of_isAlpha hc) hc
  have hupper : c.toUpper ≠ '_' :=
    of_isWordChar (P := fun c => c.isAlpha = true → c.toUpper ≠ '_') (by decide +kernel)
      (isWordChar_of_isAlpha hc) hc
  cases afterLetter <;> simp [title, titleCase, hc, hlower, hupper]

theorem title_cons_other {c : Char} (hc : c.isAlpha = false) (afterLetter : Bool) (r : List Char) :
    title afterLetter (c :: r) = if c = '_' then title false r else c :: title false r := by
  simp only [title, titleCase, hc, Bool.not_false, if_true, List.filter_cons, bne_iff_ne]
  split <;> simp_all

theorem words_cons_other {c : Char} (hc : c.isAlpha = false) (r : List Char) :
    words (c :: r) = if c = '_' then words r else [c.toLower] :: words r := by
  rw [words, hc]
  rfl

theorem words_cons_alpha {c : Char} (hc : c.isAlpha = true) (r : List Char) :
    words (c :: r) =
      if r.head?.any Char.isAlpha then
        match words r with
        | [] => [[c.toLower]]
        | w :: ws => (c.toLower :: w) :: ws
      else [c.toLower] :: words r := by
  have hne : c ≠ '_' := by
    rintro rfl
    exact absurd hc (by decide)
  rw [words, if_neg hne, hc, Bool.true_and]

/-- **Title case writes the words with capitals.** A letter in front joins the word that begins
there, if one does; so the induction has to know the words with such a letter too. -/
theorem title_eq_caps {s : List Char} (hs : ∀ c ∈ s, Text.isWordChar c = true) :
    (title false s = caps (words s) ∧ ∀ w ∈ words s, IsWord w) ∧
      ∀ c : Char, c.isAlpha = true → ∃ w ws, words (c :: s) = (c.toLower :: w) :: ws ∧
        (∀ a ∈ w, a.isLower = true) ∧ (∀ v ∈ ws, IsWord v) ∧ title true s = w ++ caps ws := by
  induction s with
  | nil =>
    refine ⟨⟨rfl, by simp [words]⟩, fun c hc => ⟨[], [], ?_, by simp, by simp, rfl⟩⟩
    exact words_cons_alpha hc []
  | cons d r ih =>
    rw [List.forall_mem_cons] at hs
    obtain ⟨hd, hr⟩ := hs
    obtain ⟨⟨htitle, hwords⟩, hjoin⟩ := ih hr
    cases halpha : d.isAlpha with
    | true =>
      obtain ⟨w, ws, hcut, hlow, hws, hrest⟩ := hjoin d halpha
      refine ⟨⟨?_, ?_⟩, fun c hc => ⟨d.toLower :: w, ws, ?_, ?_, hws, ?_⟩⟩
      · rw [title_cons_alpha halpha, hcut, hrest]
        show d.toUpper :: (w ++ caps ws) = d.toLower.toUpper :: (w ++ caps ws)
        rw [toUpper_toLower hd]
      · rw [hcut, List.forall_mem_cons]
        exact ⟨⟨d, w, rfl, by simp [Char.isAlphanum, halpha], hlow⟩, hws⟩
      · rw [words_cons_alpha hc, List.head?_cons, Option.any_some, halpha, hcut]
        rfl
      · rw [List.forall_mem_cons]
        exact ⟨isLower_toLower halpha, hlow⟩
      · rw [title_cons_alpha halpha, hrest]
        rfl
    | false =>
      have hboth : title false (d :: r) = caps (words (d :: r)) ∧
          ∀ w ∈ words (d :: r), IsWord w := by
        rw [title_cons_other halpha, words_cons_other halpha]
        split
        · exact ⟨htitle, hwords⟩
        · rename_i hne
          refine ⟨?_, ?_⟩
          · show d :: title false r = d.toLower.toUpper :: caps (words r)
            rw [htitle, toUpper_toLower hd, toUpper_of_not_isAlpha hd halpha]
          · rw [List.forall_mem_cons]
            exact ⟨⟨d, [], rfl, isAlphanum_of_isWordChar hd hne, by simp⟩, hwords⟩
      refine ⟨hboth, fun c hc => ⟨[], words (d :: r), ?_, by simp, hboth.2, ?_⟩⟩
      · rw [words_cons_alpha hc, List.head?_cons, Option.any_some, halpha]
        rfl
      · rw [title_cons_other halpha, ← title_cons_other halpha false, hboth.1]
        rfl

/-! ## Members -/

/-- The characters up to the first underscore, which a field keeps. -/
def head (i : Identifier) : List Char := i.name.toList.takeWhile (· != '_')

/-- The words behind it. -/
def tailWords (i : Identifier) : List (List Char) := words (i.name.toList.dropWhile (· != '_'))

/-- All words of an identifier. -/
def nameWords (i : Identifier) : List (List Char) := words i.name.toList

theorem isWord_of_mem_nameWords {i : Identifier} : ∀ w ∈ i.nameWords, IsWord w :=
  (title_eq_caps i.isWord).1.2

theorem isWordChar_of_mem_tail {i : Identifier} {c : Char}
    (hc : c ∈ i.name.toList.dropWhile (· != '_')) : Text.isWordChar c = true :=
  i.isWord c ((List.dropWhile_sublist _).mem hc)

theorem isWord_of_mem_tailWords {i : Identifier} : ∀ w ∈ i.tailWords, IsWord w :=
  (title_eq_caps fun _ => isWordChar_of_mem_tail).1.2

theorem toList_accessorName (i : Identifier) :
    i.accessorName.toList = "get".toList ++ caps i.nameWords := by
  have hcut : "get_".toList ++ i.name.toList = 'g' :: 'e' :: 't' :: '_' :: i.name.toList := rfl
  have htitle : title false ('_' :: i.name.toList) = title false i.name.toList :=
    title_cons_other (by decide) false i.name.toList
  rw [accessorName, String.toList_ofList, camelCase_eq, hcut, nameWords,
    ← (title_eq_caps i.isWord).1.1, ← htitle]
  rfl

theorem toList_fieldName (i : Identifier) : i.fieldName.toList = i.head ++ caps i.tailWords := by
  rw [fieldName, String.toList_ofList, camelCase_eq,
    (title_eq_caps fun _ => isWordChar_of_mem_tail).1.1]
  rfl

/-- Two identifiers have the same accessor just when they have the same words. -/
theorem accessorName_inj {i j : Identifier} :
    i.accessorName = j.accessorName ↔ i.nameWords = j.nameWords := by
  rw [← String.toList_inj, toList_accessorName, toList_accessorName, List.append_cancel_left_eq,
    caps_inj isWord_of_mem_nameWords isWord_of_mem_nameWords]

/-- An accessor with a word behind it is another accessor just when that has this word more. -/
theorem accessorName_append_inj {i j : Identifier} {w : List Char} (hw : IsWord w) :
    i.accessorName.toList ++ capitalize w = j.accessorName.toList ↔
      j.nameWords = i.nameWords ++ [w] := by
  have hcaps : capitalize w = caps [w] := (List.flatMap_singleton _ _).symm
  have hwords : ∀ v ∈ i.nameWords ++ [w], IsWord v := by
    intro v hv
    rcases List.mem_append.mp hv with hv | hv
    · exact isWord_of_mem_nameWords v hv
    · exact List.mem_singleton.mp hv ▸ hw
  rw [toList_accessorName, toList_accessorName, List.append_assoc, List.append_cancel_left_eq,
    hcaps, ← caps_append, caps_inj hwords isWord_of_mem_nameWords, eq_comm]

/-- Two identifiers have the same field just when one keeps, in front of its first underscore, what
in the other one are words behind it. -/
theorem fieldName_inj {i j : Identifier} :
    i.fieldName = j.fieldName ↔
      (∃ us, j.head = i.head ++ caps us ∧ i.tailWords = us ++ j.tailWords) ∨
        ∃ us, i.head = j.head ++ caps us ∧ j.tailWords = us ++ i.tailWords := by
  rw [← String.toList_inj, toList_fieldName, toList_fieldName, List.append_eq_append_iff]
  have hcut : ∀ {a b : Identifier} {s : List Char}, caps a.tailWords = s ++ caps b.tailWords ↔
      ∃ us, s = caps us ∧ a.tailWords = us ++ b.tailWords := by
    intro a b s
    rw [eq_comm, append_caps_inj isWord_of_mem_tailWords isWord_of_mem_tailWords]
  constructor
  · rintro (⟨s, hhead, htail⟩ | ⟨s, hhead, htail⟩)
    · obtain ⟨us, rfl, hwords⟩ := hcut.mp htail
      exact .inl ⟨us, hhead, hwords⟩
    · obtain ⟨us, rfl, hwords⟩ := hcut.mp htail
      exact .inr ⟨us, hhead, hwords⟩
  · rintro (⟨us, hhead, hwords⟩ | ⟨us, hhead, hwords⟩)
    · exact .inl ⟨caps us, hhead, hcut.mpr ⟨us, rfl, hwords⟩⟩
    · exact .inr ⟨caps us, hhead, hcut.mpr ⟨us, rfl, hwords⟩⟩

/-! ## Their characters -/

theorem isAlphanum_of_mem_caps {ws : List (List Char)} (hws : ∀ w ∈ ws, IsWord w) {c : Char}
    (hc : c ∈ caps ws) : c.isAlphanum = true := by
  obtain ⟨w, hw, hc⟩ := List.mem_flatMap.mp hc
  obtain ⟨d, r, rfl, hd, hr⟩ := hws w hw
  rcases List.mem_cons.mp hc with rfl | hc
  · have hword := isWordChar_of_isAlphanum hd
    rw [toUpper_toLower hword]
    exact of_isWordChar (P := fun c => c.isAlphanum = true → c.toUpper.isAlphanum = true)
      (by decide +kernel) hword hd
  · have halpha : c.isAlpha = (c.isUpper || c.isLower) := rfl
    simp [Char.isAlphanum, halpha, hr c hc]

theorem isAlphanum_of_mem_fieldName {i : Identifier} {c : Char} (hc : c ∈ i.fieldName.toList) :
    c.isAlphanum = true := by
  rw [toList_fieldName] at hc
  rcases List.mem_append.mp hc with hc | hc
  · have hne : c ≠ '_' := by
      have hall := List.all_takeWhile (p := (· != '_')) (l := i.name.toList)
      simpa using List.all_eq_true.mp hall c hc
    exact isAlphanum_of_isWordChar (i.isWord c ((List.takeWhile_sublist _).mem hc)) hne
  · exact isAlphanum_of_mem_caps isWord_of_mem_tailWords hc

theorem isAlphanum_of_mem_accessorName {i : Identifier} {c : Char}
    (hc : c ∈ i.accessorName.toList) : c.isAlphanum = true := by
  rw [toList_accessorName] at hc
  rcases List.mem_append.mp hc with hc | hc
  · have hget : "get".toList.all Char.isAlphanum = true := by decide
    exact List.all_eq_true.mp hget c hc
  · exact isAlphanum_of_mem_caps isWord_of_mem_nameWords hc

end AssetPack.Identifier
