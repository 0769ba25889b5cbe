import AssetPack.Proofs.Text.EditDistance

/-!
# The edit distance in two rows

`editDistance` makes a new row for each byte of the first string. Two rows are enough if they are
written over: one holds the distances for the bytes so far, and the other takes those for one byte
more, number by number, until it is copied over the first. `twoRows?` is that, and every access is
by index; an access outside a row gives `none`.

There are two loops, one in the other, and each has its invariant. Both are `Holds`: a row has the
right length, and up to some index the numbers in it are distances. So no access is outside
(`twoRows?_eq`), and the number that is read off at the end is the edit distance.
-/

set_option autoImplicit false

namespace AssetPack.Text

/-- The row with one number written over. -/
def put? (row : List Nat) (i n : Nat) : Option (List Nat) :=
  if i < row.length then some (row.set i n) else none

/-- One number of the lower row, from the three that it depends on. -/
def fillCell? (x : UInt8) (upper lower : List Nat) (cell : UInt8 × Nat) : Option (List Nat) := do
  let above ← upper[cell.2 + 1]?
  let left ← lower[cell.2]?
  let diagonal ← upper[cell.2]?
  put? lower (cell.2 + 1)
    (min (min (above + 1) (left + 1)) (diagonal + if x = cell.1 then 0 else 1))

/-- The lower row, filled and copied over the upper one, which must be of its length. -/
def fillRow? (second : List UInt8) (rows : List Nat × List Nat) (byte : UInt8 × Nat) :
    Option (List Nat × List Nat) := do
  let begun ← put? rows.2 0 (byte.2 + 1)
  let lower ← second.zipIdx.foldlM (fillCell? byte.1 rows.1) begun
  if rows.1.length = lower.length then some (lower, lower) else none

/-- The edit distance, worked out in two rows. -/
def twoRows? (first second : List UInt8) : Option Nat :=
  if first = second then some 0
  else do
    let rows ← first.zipIdx.foldlM (fillRow? second)
      (firstRow second, List.replicate (second.length + 1) 0)
    rows.1[second.length]?

variable {p q b r : List UInt8} {upper lower : List Nat} {k : Nat}

/-- Up to index `k`, the row holds the distances from `p` to the beginnings of `b`. -/
structure Holds (p b : List UInt8) (k : Nat) (row : List Nat) : Prop where
  length : row.length = b.length + 1
  cells : ∀ j ≤ k, row[j]? = some (distance p (b.take j))

theorem holds_firstRow (b : List UInt8) : Holds [] b b.length (firstRow b) := by
  refine ⟨List.length_range, fun j hj => ?_⟩
  rw [firstRow, List.getElem?_range (Nat.lt_succ_of_le hj), distance_nil_left,
    List.length_take_of_le hj]

/-- A row that holds one distance more when the next number is written. -/
theorem Holds.put (h : Holds p b k lower) (hk : k < b.length) :
    put? lower (k + 1) (distance p (b.take (k + 1))) =
        some (lower.set (k + 1) (distance p (b.take (k + 1)))) ∧
      Holds p b (k + 1) (lower.set (k + 1) (distance p (b.take (k + 1)))) := by
  have hlt : k + 1 < lower.length := by
    rw [h.length]
    exact Nat.succ_lt_succ hk
  refine ⟨if_pos hlt, ?_, fun j hj => ?_⟩
  · rw [List.length_set, h.length]
  · by_cases heq : j = k + 1
    · subst heq
      exact List.getElem?_set_self hlt
    · rw [List.getElem?_set_ne (Ne.symm heq)]
      exact h.cells j (by omega)

/-- One round of the inner loop. -/
theorem fillCell?_eq {x y : UInt8} (hb : b = q ++ y :: r) (hupper : Holds p b b.length upper)
    (hlower : Holds (p ++ [x]) b q.length lower) :
    ∃ next, fillCell? x upper lower (y, q.length) = some next ∧
      Holds (p ++ [x]) b (q.length + 1) next := by
  have hlt : q.length < b.length := by simp [hb]
  have htake : b.take q.length = q := by simp [hb]
  have htake' : b.take (q.length + 1) = q ++ [y] := by
    rw [hb, List.take_append, List.take_of_length_le (Nat.le_succ _), Nat.add_sub_cancel_left]
    rfl
  have habove := hupper.cells (q.length + 1) hlt
  have hleft := hlower.cells q.length (Nat.le_refl _)
  have hdiagonal := hupper.cells q.length (Nat.le_of_lt hlt)
  rw [htake'] at habove
  rw [htake] at hleft hdiagonal
  obtain ⟨hput, hnext⟩ := hlower.put hlt
  rw [htake', distance_concat_concat] at hput
  refine ⟨_, ?_, hnext⟩
  rw [fillCell?, habove, hleft, hdiagonal, htake', distance_concat_concat]
  exact hput

theorem foldlM_fillCell? {x : UInt8} (hb : b = q ++ r) (hupper : Holds p b b.length upper)
    (hlower : Holds (p ++ [x]) b q.length lower) :
    ∃ next, (r.zipIdx q.length).foldlM (fillCell? x upper) lower = some next ∧
      Holds (p ++ [x]) b b.length next := by
  induction r generalizing q lower with
  | nil =>
    rw [List.append_nil] at hb
    exact ⟨lower, rfl, hb ▸ hlower⟩
  | cons y r ih =>
    obtain ⟨begun, hbegun, hholds⟩ := fillCell?_eq hb hupper hlower
    have hq : q.length + 1 = (q ++ [y]).length := by simp
    rw [hq] at hholds
    obtain ⟨next, hnext, hall⟩ := ih (by simp [hb]) hholds
    refine ⟨next, ?_, hall⟩
    rw [List.zipIdx_cons, List.foldlM_cons, hbegun, hq]
    exact hnext

/-- One round of the outer loop. What was in the lower row does not matter. -/
theorem fillRow?_eq (x : UInt8) (hupper : Holds p b b.length upper)
    (hlength : lower.length = b.length + 1) :
    ∃ next, fillRow? b (upper, lower) (x, p.length) = some (next, next) ∧
      Holds (p ++ [x]) b b.length next := by
  have hbegun : put? lower 0 (p.length + 1) = some (lower.set 0 (p.length + 1)) :=
    if_pos (by rw [hlength]; exact Nat.succ_pos _)
  have hholds : Holds (p ++ [x]) b 0 (lower.set 0 (p.length + 1)) := by
    refine ⟨by rw [List.length_set, hlength], fun j hj => ?_⟩
    cases Nat.le_zero.mp hj
    simp [hlength]
  obtain ⟨next, hnext, hall⟩ := foldlM_fillCell? (List.nil_append b).symm hupper hholds
  refine ⟨next, ?_, hall⟩
  have hsame : upper.length = next.length := by rw [hupper.length, hall.length]
  have hloop : b.zipIdx.foldlM (fillCell? x upper) (lower.set 0 (p.length + 1)) = some next := hnext
  simp only [fillRow?, hbegun, Option.bind_eq_bind, Option.bind_some, hloop, if_pos hsame]

theorem foldlM_fillRow? (a : List UInt8) (hupper : Holds p b b.length upper)
    (hlength : lower.length = b.length + 1) :
    ∃ rows, (a.zipIdx p.length).foldlM (fillRow? b) (upper, lower) = some rows ∧
      Holds (p ++ a) b b.length rows.1 := by
  induction a generalizing p upper lower with
  | nil =>
    rw [List.append_nil]
    exact ⟨(upper, lower), rfl, hupper⟩
  | cons x a ih =>
    obtain ⟨next, hnext, hholds⟩ := fillRow?_eq x hupper hlength
    have hp : p.length + 1 = (p ++ [x]).length := by simp
    obtain ⟨rows, hrows, hall⟩ := ih hholds hholds.length
    rw [List.append_assoc] at hall
    refine ⟨rows, ?_, hall⟩
    rw [List.zipIdx_cons, List.foldlM_cons, hnext, hp]
    exact hrows

/-- Every access is inside its row, and what is left is the edit distance. -/
theorem twoRows?_eq (a b : List UInt8) : twoRows? a b = some (editDistance a b) := by
  rw [editDistance_eq, twoRows?]
  split
  case isTrue heq => rw [heq, distance_self]
  case isFalse =>
    have hlength : (List.replicate (b.length + 1) 0).length = b.length + 1 := List.length_replicate
    obtain ⟨rows, hrows, hholds⟩ := foldlM_fillRow? a (holds_firstRow b) hlength
    have hloop : a.zipIdx.foldlM (fillRow? b) (firstRow b, List.replicate (b.length + 1) 0) =
        some rows := hrows
    have hlast := hholds.cells b.length (Nat.le_refl _)
    rw [List.nil_append, List.take_length] at hlast
    rw [hloop]
    exact hlast

end AssetPack.Text
