import AssetPack.Proofs.Glsl.SpaceMinimal
import Mathlib.Data.Nat.Find
import Mathlib.Order.Bounds.Basic

/-!
# A scanner that goes by single characters

`pieces` cuts a whole comment at once. The scanner here does the same job with an index into the
text, a state of four values and the text written so far, and looks at two characters in a round. It
is said as one round (`round?`), in which a read outside the text would be `none`.

Not every round moves on: at a line feed a quotation or a line comment is left, and the line feed is
read again as code. So the rounds are counted by `potential`, two for each character that is left and
one for a state that can be left in this way. Every round lowers it (`potential_lt`), and at the start
it is twice the length of the text.

Where a comment ends is decided by the rounds one after the other, but can be said of the text alone:
`exists_stays` follows the scanner through a comment up to a given index, and `closesLine` and
`closesBlock` name that index.
-/

set_option autoImplicit false

namespace AssetPack.Glsl

open AssetPack.Text

/-- What the scanner is in. -/
inductive Region where
  | code
  | quoted
  | lineComment
  | blockComment
  deriving DecidableEq, Repr

/-- The scanner between two rounds: what it is in, which character is next, and what is written. -/
structure Scanner where
  region : Region
  index : Nat
  out : List Char
  deriving DecidableEq, Repr

namespace Scanner

/-- Before the first round. -/
def start : Scanner := ⟨.code, 0, []⟩

/-! ## What a round may do -/

/-- What is written where a comment is opened. -/
def opening : Variant → List Char
  | .debug => [' ', ' ']
  | .release => [' ']

/-- What is written for a character in a comment. -/
def inside (v : Variant) (c : Char) : List Char :=
  match v with
  | .debug => [if c == '\n' then '\n' else ' ']
  | .release => []

/-- What is written where a block comment is closed. -/
def closing : Variant → List Char
  | .debug => [' ', ' ']
  | .release => []

/-- Copies a character. -/
def keep (s : Scanner) (region : Region) (c : Char) : Scanner :=
  ⟨region, s.index + 1, s.out ++ [c]⟩

/-- OpensAt a comment. -/
def enter (v : Variant) (s : Scanner) (region : Region) : Scanner :=
  ⟨region, s.index + 2, s.out ++ opening v⟩

/-- Passes a character of a comment. -/
def pass (v : Variant) (s : Scanner) (c : Char) : Scanner :=
  ⟨s.region, s.index + 1, s.out ++ inside v c⟩

/-- Closes a block comment. -/
def close (v : Variant) (s : Scanner) : Scanner :=
  ⟨.code, s.index + 2, s.out ++ closing v⟩

/-- Goes back to code, at the same character. -/
def leave (s : Scanner) : Scanner := { s with region := .code }

/-! ## One round -/

/-- Whether there is a `*` with a `/` right behind it. -/
def hasBlockEnd : List Char → Bool
  | c :: d :: r => (c == '*' && d == '/') || hasBlockEnd (d :: r)
  | _ => false

/-- Whether the line that is being written is a directive. -/
def onDirectiveLine (out : List Char) : Bool := isDirectiveLine ((splitLf out).getLastD [])

/-- The text from an index on; nothing if the index is behind the end. -/
def slice? (text : List Char) (i : Nat) : Option (List Char) :=
  if i ≤ text.length then some (text.drop i) else none

/-- One round. -/
def round? (v : Variant) (text : List Char) (s : Scanner) : Option Scanner := do
  let c ← text[s.index]?
  let next := text[s.index + 1]?
  match s.region with
  | .code =>
    if c = '/' ∧ next = some '/' then some (s.enter v .lineComment)
    else if c = '/' ∧ next = some '*' then do
      let rest ← slice? text (s.index + 2)
      some (if hasBlockEnd rest then s.enter v .blockComment else s.keep .code c)
    else if c = '"' ∧ onDirectiveLine s.out then some (s.keep .quoted c)
    else some (s.keep .code c)
  | .quoted =>
    if c = '\n' then some s.leave
    else some (s.keep (if c = '"' then .code else .quoted) c)
  | .lineComment => some (if c = '\n' then s.leave else s.pass v c)
  | .blockComment => some (if c = '*' ∧ next = some '/' then s.close v else s.pass v c)

variable {v : Variant} {text : List Char} {s t u : Scanner} {c : Char}

/-- A round in code. -/
theorem round?_code (hs : s.region = .code) (hc : text[s.index]? = some c) :
    round? v text s = some
      (if c = '/' ∧ text[s.index + 1]? = some '/' then s.enter v .lineComment
      else if (c = '/' ∧ text[s.index + 1]? = some '*') ∧ hasBlockEnd (text.drop (s.index + 2)) then
        s.enter v .blockComment
      else if c = '"' ∧ onDirectiveLine s.out then s.keep .quoted c
      else s.keep .code c) := by
  simp only [round?, hc, hs, Option.bind_eq_bind, Option.bind_some]
  by_cases hline : c = '/' ∧ text[s.index + 1]? = some '/'
  · rw [if_pos hline, if_pos hline]
  · rw [if_neg hline, if_neg hline]
    by_cases hblock : c = '/' ∧ text[s.index + 1]? = some '*'
    · -- The slice starts behind the `*`, which is in the text.
      have hlt := (List.getElem?_eq_some_iff.mp hblock.2).1
      have hslice : slice? text (s.index + 2) = some (text.drop (s.index + 2)) := if_pos hlt
      have hquote : ¬ (c = '"' ∧ onDirectiveLine s.out = true) := by
        rw [hblock.1]
        simp
      rw [if_pos hblock, hslice, Option.bind_some, if_neg hquote]
      simp only [hblock, and_self, true_and]
    · have hnone : ¬ ((c = '/' ∧ text[s.index + 1]? = some '*') ∧
          hasBlockEnd (text.drop (s.index + 2)) = true) := fun h => hblock h.1
      rw [if_neg hblock, if_neg hnone]
      split <;> rfl

theorem round?_quoted (hs : s.region = .quoted) (hc : text[s.index]? = some c) :
    round? v text s = some
      (if c = '\n' then s.leave else s.keep (if c = '"' then .code else .quoted) c) := by
  simp only [round?, hc, hs, Option.bind_eq_bind, Option.bind_some]
  split <;> rfl

theorem round?_lineComment (hs : s.region = .lineComment) (hc : text[s.index]? = some c) :
    round? v text s = some (if c = '\n' then s.leave else s.pass v c) := by
  simp only [round?, hc, hs, Option.bind_eq_bind, Option.bind_some]

theorem round?_blockComment (hs : s.region = .blockComment) (hc : text[s.index]? = some c) :
    round? v text s = some
      (if c = '*' ∧ text[s.index + 1]? = some '/' then s.close v else s.pass v c) := by
  simp only [round?, hc, hs, Option.bind_eq_bind, Option.bind_some]

/-! ## Moving on -/

/-- The round moves on in the text. -/
def Advances (text : List Char) (s t : Scanner) : Prop := s.index < t.index ∧ t.index ≤ text.length

/-- The round leaves a quotation or a line comment, at a line feed. -/
structure Leaves (text : List Char) (s t : Scanner) : Prop where
  region : s.region = .quoted ∨ s.region = .lineComment
  lf : text[s.index]? = some '\n'
  left : t = s.leave

theorem advances_of_region_code (hs : s.region = .code) (hin : s.index < text.length) :
    ∃ t, round? v text s = some t ∧ Advances text s t := by
  have hc : text[s.index]? = some text[s.index] := List.getElem?_eq_getElem hin
  refine ⟨_, round?_code hs hc, ?_⟩
  have htwo : ∀ d, text[s.index + 1]? = some d → s.index + 2 ≤ text.length := by
    intro d hd
    exact (List.getElem?_eq_some_iff.mp hd).1
  split
  · rename_i hline
    exact ⟨by simp [enter], htwo _ hline.2⟩
  · split
    · rename_i hblock
      exact ⟨by simp [enter], htwo _ hblock.1.2⟩
    · split <;> exact ⟨by simp [keep], hin⟩

/-- No round fails. It moves on, or leaves a region and then does not stay a second time. -/
theorem exists_round? (v : Variant) (hin : s.index < text.length) :
    ∃ t, round? v text s = some t ∧ (Advances text s t ∨ Leaves text s t) := by
  have hc : text[s.index]? = some text[s.index] := List.getElem?_eq_getElem hin
  cases hs : s.region with
  | code =>
    obtain ⟨t, ht, hadvances⟩ := advances_of_region_code (v := v) hs hin
    exact ⟨t, ht, .inl hadvances⟩
  | quoted =>
    refine ⟨_, round?_quoted hs hc, ?_⟩
    split
    · rename_i hlf
      exact .inr ⟨.inl hs, hlf ▸ hc, rfl⟩
    · exact .inl ⟨Nat.lt_succ_self _, hin⟩
  | lineComment =>
    refine ⟨_, round?_lineComment hs hc, ?_⟩
    split
    · rename_i hlf
      exact .inr ⟨.inr hs, hlf ▸ hc, rfl⟩
    · exact .inl ⟨Nat.lt_succ_self _, hin⟩
  | blockComment =>
    refine ⟨_, round?_blockComment hs hc, .inl ?_⟩
    split
    · rename_i hclose
      exact ⟨by simp [close], (List.getElem?_eq_some_iff.mp hclose.2).1⟩
    · exact ⟨Nat.lt_succ_self _, hin⟩

/-- A bound on the rounds that are left. -/
def potential (text : List Char) (s : Scanner) : Nat :=
  2 * (text.length - s.index) + if s.region = .quoted ∨ s.region = .lineComment then 1 else 0

theorem potential_lt (hin : s.index < text.length) (h : Advances text s t ∨ Leaves text s t) :
    t.potential text < s.potential text := by
  unfold potential
  rcases h with ⟨hlt, hle⟩ | ⟨hregion, -, rfl⟩
  · -- Two for each character outweigh the one for the region.
    split <;> split <;> omega
  · rw [if_pos hregion, if_neg (by simp [leave])]
    simp [leave]

/-! ## Runs -/

/-- Where the round opens a comment, if it does. -/
def openedBy (s t : Scanner) : List Nat :=
  if s.region = .code ∧ (t.region = .lineComment ∨ t.region = .blockComment) then [s.index] else []

/-- After `n` rounds the scanner is `s`, and has opened comments at these indices. -/
inductive Reaches (v : Variant) (text : List Char) : Nat → List Nat → Scanner → Prop
  | start : Reaches v text 0 [] start
  | round {n : Nat} {opened : List Nat} {s t : Scanner} (h : Reaches v text n opened s)
      (hin : s.index < text.length) (hround : round? v text s = some t) :
      Reaches v text (n + 1) (opened ++ openedBy s t) t

variable {n : Nat} {opened : List Nat}

theorem Reaches.potential_le (h : Reaches v text n opened s) :
    n + s.potential text ≤ 2 * text.length ∧ s.index ≤ text.length := by
  induction h with
  | start => simp [potential, Scanner.start]
  | round h hin hround ih =>
    obtain ⟨t, ht, hgoes⟩ := exists_round? v hin
    rw [ht, Option.some.injEq] at hround
    subst hround
    have hless := potential_lt hin hgoes
    refine ⟨by omega, ?_⟩
    rcases hgoes with hadvances | hleaves
    · exact hadvances.2
    · rw [hleaves.left]
      exact ih.2

/-- Every run goes on to the end of the text. -/
theorem Reaches.exists_end (h : Reaches v text n opened s) :
    ∃ m found last, Reaches v text m found last ∧ last.index = text.length := by
  induction hp : s.potential text using Nat.strong_induction_on generalizing n opened s with
  | _ p ih =>
    by_cases hin : s.index < text.length
    · obtain ⟨t, ht, hgoes⟩ := exists_round? v hin
      exact ih _ (hp ▸ potential_lt hin hgoes) (h.round hin ht) rfl
    · exact ⟨n, opened, s, h, Nat.le_antisymm h.potential_le.2 (Nat.le_of_not_lt hin)⟩

/-! ## Through a comment -/

/-- The scanner goes from the one state to the other and is in the region all the while. -/
inductive Stays (v : Variant) (text : List Char) (region : Region) : Scanner → Scanner → Prop
  | here {s : Scanner} (h : s.region = region) : Stays v text region s s
  | round {s t u : Scanner} (h : s.region = region) (hround : round? v text s = some t)
      (rest : Stays v text region t u) : Stays v text region s u

theorem Stays.region_eq {region : Region} (h : Stays v text region s t) : t.region = region := by
  induction h with
  | here h => exact h
  | round _ _ _ ih => exact ih

/-- If up to an index the scanner passes characters only, it comes to that index. -/
theorem exists_stays {region : Region} {e : Nat} (hs : s.region = region) (he : s.index ≤ e)
    (hpass : ∀ t, t.region = region → s.index ≤ t.index → t.index < e →
      ∃ c, round? v text t = some (t.pass v c)) :
    ∃ t, Stays v text region s t ∧ t.index = e := by
  induction hk : e - s.index generalizing s with
  | zero => exact ⟨s, .here hs, by omega⟩
  | succ k ih =>
    obtain ⟨c, hc⟩ := hpass s hs (Nat.le_refl _) (by omega)
    have hindex : (s.pass v c).index = s.index + 1 := rfl
    obtain ⟨t, hstays, ht⟩ := ih (s := s.pass v c) hs (by omega)
      (fun t ht hle hlt => hpass t ht (by omega) hlt) (by omega)
    exact ⟨t, .round hs hc hstays, ht⟩

/-- A `/` stands at index `i`, and `d` behind it. -/
def OpensAt (text : List Char) (i : Nat) (d : Char) : Prop :=
  text[i]? = some '/' ∧ text[i + 1]? = some d

/-- The line, or the text, ends at index `e`, which is behind an opener at `i`. -/
def LineEndsAt (text : List Char) (i e : Nat) : Prop :=
  i + 2 ≤ e ∧ (text[e]? = some '\n' ∨ e = text.length)

/-- A `*/` stands at index `j`, which is behind an opener at `i`. -/
def ClosesAt (text : List Char) (i j : Nat) : Prop :=
  i + 2 ≤ j ∧ text[j]? = some '*' ∧ text[j + 1]? = some '/'

theorem exists_isLeast {P : Nat → Prop} {n : Nat} (h : P n) : ∃ k, IsLeast {k | P k} k := by
  classical
  exact ⟨Nat.find ⟨n, h⟩, Nat.find_spec ⟨n, h⟩, fun k hk => Nat.find_min' ⟨n, h⟩ hk⟩

/-- A line comment is left right before the next line feed, or goes on to the end of the text. -/
theorem closesLine {i : Nat} (ht : t.region = .lineComment) (hi : t.index = i + 2)
    (hle : i + 2 ≤ text.length) :
    ∃ e u, IsLeast {e | LineEndsAt text i e} e ∧ Stays v text .lineComment t u ∧ u.index = e ∧
      (e < text.length → round? v text u = some u.leave) := by
  obtain ⟨e, hleast⟩ := exists_isLeast (P := LineEndsAt text i) ⟨hle, .inr rfl⟩
  obtain ⟨⟨hie, hend⟩, hmin⟩ := hleast
  have hlen : e ≤ text.length := hmin ⟨hle, .inr rfl⟩
  obtain ⟨u, hstays, hu⟩ := exists_stays (v := v) (e := e) ht (by omega) (by
    intro x hx hfrom hto
    have hc : text[x.index]? = some text[x.index] := List.getElem?_eq_getElem (by omega)
    have hlf : text[x.index] ≠ '\n' := by
      intro hlf
      have hsooner : e ≤ x.index := hmin ⟨by omega, .inl (hlf ▸ hc)⟩
      omega
    exact ⟨text[x.index], by rw [round?_lineComment hx hc, if_neg hlf]⟩)
  refine ⟨e, u, ⟨⟨hie, hend⟩, hmin⟩, hstays, hu, ?_⟩
  intro hin
  have hlf : text[u.index]? = some '\n' := by
    rw [hu]
    exact hend.resolve_right (Nat.ne_of_lt hin)
  rw [round?_lineComment hstays.region_eq hlf, if_pos rfl]

/-- A block comment is closed at the first `*/` behind its opener. -/
theorem closesBlock {i j : Nat} (ht : t.region = .blockComment) (hi : t.index = i + 2)
    (hj : ClosesAt text i j) :
    ∃ j u, IsLeast {j | ClosesAt text i j} j ∧ Stays v text .blockComment t u ∧ u.index = j ∧
      round? v text u = some (u.close v) := by
  obtain ⟨j, hleast⟩ := exists_isLeast hj
  obtain ⟨⟨hij, hstar, hslash⟩, hmin⟩ := hleast
  have hlen : j < text.length := (List.getElem?_eq_some_iff.mp hstar).1
  obtain ⟨u, hstays, hu⟩ := exists_stays (v := v) (e := j) ht (by omega) (by
    intro x hx hfrom hto
    have hc : text[x.index]? = some text[x.index] := List.getElem?_eq_getElem (by omega)
    have hopen : ¬ (text[x.index] = '*' ∧ text[x.index + 1]? = some '/') := by
      rintro ⟨hstar, hslash⟩
      have hsooner : j ≤ x.index := hmin ⟨by omega, hstar ▸ hc, hslash⟩
      omega
    exact ⟨text[x.index], by rw [round?_blockComment hx hc, if_neg hopen]⟩)
  subst hu
  refine ⟨u.index, u, ⟨⟨hij, hstar, hslash⟩, hmin⟩, hstays, rfl, ?_⟩
  rw [round?_blockComment hstays.region_eq hstar, if_pos ⟨rfl, hslash⟩]

end Scanner

end AssetPack.Glsl
