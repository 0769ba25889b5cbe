import AssetPack.Text.EditDistance

/-!
# The rows of an edit distance

The distance is computed over beginnings of the two strings, a row at a time. What it is meant to be
is said by edits at any place of a string (`Edits`): it is the least number of them that turn the
first string into the second (`editDistance_le_iff`).

Between the two stands the textbook recursion on first bytes (`distance`). That it is the least
number of edits takes one bound for each kind of edit, and each of these is carried over a common
first byte by one lemma (`distance_cons_le`). Beginnings grow at their ends, so the rows are about
reversed strings; and edits do not mind which way a string is read.
-/

set_option autoImplicit false

namespace AssetPack.Text

variable {a b c s t : List UInt8} {x y : UInt8} {n m : Nat}

/-! ## Edits -/

/-- The first string becomes the second one by so many insertions, deletions and substitutions of
single bytes. -/
inductive Edits : Nat → List UInt8 → List UInt8 → Prop
  | none (a : List UInt8) : Edits 0 a a
  | insert {n : Nat} (u v : List UInt8) (x : UInt8) {c : List UInt8}
      (h : Edits n (u ++ x :: v) c) : Edits (n + 1) (u ++ v) c
  | delete {n : Nat} (u v : List UInt8) (x : UInt8) {c : List UInt8}
      (h : Edits n (u ++ v) c) : Edits (n + 1) (u ++ x :: v) c
  | substitute {n : Nat} (u v : List UInt8) (x y : UInt8) {c : List UInt8}
      (h : Edits n (u ++ y :: v) c) : Edits (n + 1) (u ++ x :: v) c

namespace Edits

theorem cons (x : UInt8) (h : Edits n a b) : Edits n (x :: a) (x :: b) := by
  induction h with
  | none a => exact .none _
  | insert u v z _ ih => exact .insert (x :: u) v z ih
  | delete u v z _ ih => exact .delete (x :: u) v z ih
  | substitute u v z w _ ih => exact .substitute (x :: u) v z w ih

theorem reverse (h : Edits n a b) : Edits n a.reverse b.reverse := by
  induction h with
  | none a => exact .none _
  | insert u v z _ ih =>
    rw [List.reverse_append]
    rw [List.reverse_append, List.reverse_cons, List.append_assoc] at ih
    exact .insert v.reverse u.reverse z ih
  | delete u v z _ ih =>
    rw [List.reverse_append, List.reverse_cons, List.append_assoc]
    rw [List.reverse_append] at ih
    exact .delete v.reverse u.reverse z ih
  | substitute u v z w _ ih =>
    rw [List.reverse_append, List.reverse_cons, List.append_assoc]
    rw [List.reverse_append, List.reverse_cons, List.append_assoc] at ih
    exact .substitute v.reverse u.reverse z w ih

theorem trans (hab : Edits n a b) (hbc : Edits m b c) : Edits (n + m) a c := by
  induction hab with
  | none a => rwa [Nat.zero_add]
  | insert u v x _ ih => rw [Nat.add_right_comm]; exact .insert u v x (ih hbc)
  | delete u v x _ ih => rw [Nat.add_right_comm]; exact .delete u v x (ih hbc)
  | substitute u v x y _ ih => rw [Nat.add_right_comm]; exact .substitute u v x y (ih hbc)

/-- Each edit can be taken back by one. -/
theorem symm (h : Edits n a b) : Edits n b a := by
  induction h with
  | none a => exact .none a
  | insert u v x _ ih => exact ih.trans (.delete u v x (.none _))
  | delete u v x _ ih => exact ih.trans (.insert u v x (.none _))
  | substitute u v x y _ ih => exact ih.trans (.substitute u v y x (.none _))

end Edits

/-! ## The recursion on first bytes -/

/-- The distance, by what becomes of the first bytes. -/
def distance : List UInt8 → List UInt8 → Nat
  | [], b => b.length
  | a, [] => a.length
  | x :: a, y :: b =>
    min (min (distance a (y :: b) + 1) (distance (x :: a) b + 1))
      (distance a b + if x = y then 0 else 1)
termination_by a b => a.length + b.length

@[simp] theorem distance_nil_left (b : List UInt8) : distance [] b = b.length := by
  rw [distance]

@[simp] theorem distance_nil_right (a : List UInt8) : distance a [] = a.length := by
  cases a <;> simp [distance]

theorem distance_cons_cons (x y : UInt8) (a b : List UInt8) : distance (x :: a) (y :: b) =
    min (min (distance a (y :: b) + 1) (distance (x :: a) b + 1))
      (distance a b + if x = y then 0 else 1) := by
  rw [distance]

theorem edits_nil (a : List UInt8) : Edits a.length a [] := by
  induction a with
  | nil => exact .none _
  | cons x a ih => exact .delete [] a x ih

theorem edits_of_nil (b : List UInt8) : Edits b.length [] b := by
  induction b with
  | nil => exact .none _
  | cons y b ih => exact .insert [] [] y (ih.cons y)

/-- So many edits are enough. -/
theorem edits_distance (a b : List UInt8) : Edits (distance a b) a b := by
  induction a, b using distance.induct with
  | case1 b => rw [distance_nil_left]; exact edits_of_nil b
  | case2 a _ => rw [distance_nil_right]; exact edits_nil a
  | case3 x a y b hdelete hinsert hkeep =>
    have hcases := distance_cons_cons x y a b
    rcases (by omega : distance (x :: a) (y :: b) = distance a (y :: b) + 1 ∨
        distance (x :: a) (y :: b) = distance (x :: a) b + 1 ∨
        distance (x :: a) (y :: b) = distance a b + if x = y then 0 else 1) with h | h | h
    · rw [h]
      exact .delete [] a x hdelete
    · rw [h]
      exact .insert [] (x :: a) y (hinsert.cons y)
    · rw [h]
      split
      case isTrue heq =>
        subst heq
        exact hkeep.cons x
      case isFalse => exact .substitute [] a x y (hkeep.cons y)

/-! ## No edit saves more than one -/

theorem distance_self (a : List UInt8) : distance a a = 0 := by
  induction a with
  | nil => rw [distance_nil_left]; rfl
  | cons x a ih =>
    rw [distance_cons_cons, if_pos rfl, ih]
    exact Nat.min_zero _

theorem distance_cons_right_le (a c : List UInt8) (z : UInt8) :
    distance a (z :: c) ≤ distance a c + 1 := by
  cases a with
  | nil => simp
  | cons x a =>
    rw [distance_cons_cons]
    omega

theorem distance_insert_le (x : UInt8) (a c : List UInt8) :
    distance a c ≤ distance (x :: a) c + 1 := by
  induction c with
  | nil =>
    rw [distance_nil_right, distance_nil_right, List.length_cons]
    omega
  | cons z c ih =>
    have hright := distance_cons_right_le a c z
    rw [distance_cons_cons]
    omega

theorem distance_delete_le (x : UInt8) (a c : List UInt8) :
    distance (x :: a) c ≤ distance a c + 1 := by
  cases c with
  | nil => simp
  | cons z c =>
    rw [distance_cons_cons]
    omega

theorem distance_substitute_le (x y : UInt8) (a c : List UInt8) :
    distance (x :: a) c ≤ distance (y :: a) c + 1 := by
  induction c with
  | nil => simp
  | cons z c ih =>
    rw [distance_cons_cons, distance_cons_cons y]
    split <;> split <;> omega

/-- What holds of the rests of two strings holds of the strings, if they begin with one byte. -/
theorem distance_cons_le (h : ∀ c, distance s c ≤ distance t c + 1) (x : UInt8) (c : List UInt8) :
    distance (x :: s) c ≤ distance (x :: t) c + 1 := by
  induction c with
  | nil => simpa using h []
  | cons z c ih =>
    have hdelete := h (z :: c)
    have hkeep := h c
    rw [distance_cons_cons, distance_cons_cons]
    omega

theorem distance_append_le (h : ∀ c, distance s c ≤ distance t c + 1) (u c : List UInt8) :
    distance (u ++ s) c ≤ distance (u ++ t) c + 1 := by
  induction u generalizing c with
  | nil => exact h c
  | cons x u ih => exact distance_cons_le ih x c

/-- Fewer edits are not enough. -/
theorem distance_le_of_edits (h : Edits n a b) : distance a b ≤ n := by
  induction h with
  | none a => exact Nat.le_of_eq (distance_self a)
  | insert u v x _ ih =>
    exact Nat.le_trans (distance_append_le (distance_insert_le x v) u _) (Nat.succ_le_succ ih)
  | delete u v x _ ih =>
    exact Nat.le_trans (distance_append_le (distance_delete_le x v) u _) (Nat.succ_le_succ ih)
  | substitute u v x y _ ih =>
    exact Nat.le_trans (distance_append_le (distance_substitute_le x y v) u _) (Nat.succ_le_succ ih)

theorem distance_reverse (a b : List UInt8) : distance a.reverse b.reverse = distance a b := by
  refine Nat.le_antisymm (distance_le_of_edits (edits_distance a b).reverse) ?_
  have hback := (edits_distance a.reverse b.reverse).reverse
  rw [List.reverse_reverse, List.reverse_reverse] at hback
  exact distance_le_of_edits hback

/-! ## A distance -/

theorem distance_comm (a b : List UInt8) : distance a b = distance b a :=
  Nat.le_antisymm (distance_le_of_edits (edits_distance b a).symm)
    (distance_le_of_edits (edits_distance a b).symm)

theorem distance_eq_zero_iff : distance a b = 0 ↔ a = b := by
  constructor
  · intro h
    have hnone : Edits 0 a b := h ▸ edits_distance a b
    cases hnone
    rfl
  · intro h
    rw [h, distance_self]

theorem distance_triangle (a b c : List UInt8) : distance a c ≤ distance a b + distance b c :=
  distance_le_of_edits ((edits_distance a b).trans (edits_distance b c))

/-- The recursion, on last bytes. -/
theorem distance_concat_concat (x y : UInt8) (a b : List UInt8) :
    distance (a ++ [x]) (b ++ [y]) =
      min (min (distance a (b ++ [y]) + 1) (distance (a ++ [x]) b + 1))
        (distance a b + if x = y then 0 else 1) := by
  have h := distance_cons_cons x y a.reverse b.reverse
  simp only [← List.reverse_concat, distance_reverse] at h
  exact h

/-! ## Rows -/

/-- The row for a beginning of the first string, from a beginning of the second one on. -/
def rowOf (p q : List UInt8) : List UInt8 → List Nat
  | [] => [distance p.reverse q.reverse]
  | y :: b => distance p.reverse q.reverse :: rowOf p (q ++ [y]) b

theorem rowOf_eq_cons (p q b : List UInt8) :
    rowOf p q b = distance p.reverse q.reverse :: (rowOf p q b).tail := by
  cases b <;> rfl

theorem range'_eq_rowOf (q b : List UInt8) :
    List.range' q.length (b.length + 1) = rowOf [] q b := by
  induction b generalizing q with
  | nil => simp [rowOf]
  | cons y b ih =>
    have hrest := ih (q ++ [y])
    rw [List.length_append] at hrest
    rw [List.length_cons, List.range'_succ, rowOf, List.reverse_nil, distance_nil_left,
      List.length_reverse, ← hrest]
    rfl

theorem firstRow_eq (b : List UInt8) : firstRow b = rowOf [] [] b := by
  rw [firstRow, List.range_eq_range']
  exact range'_eq_rowOf [] b

/-- One byte more of the first string, at some place in the second one. -/
theorem extendRow_eq (x : UInt8) (p q b : List UInt8) :
    extendRow x (distance (p ++ [x]).reverse q.reverse) b (rowOf p q b) =
      (rowOf (p ++ [x]) q b).tail := by
  induction b generalizing q with
  | nil => rfl
  | cons y b ih =>
    have hhere : min (min (distance p.reverse (q ++ [y]).reverse + 1)
        (distance (p ++ [x]).reverse q.reverse + 1))
        (distance p.reverse q.reverse + if x = y then 0 else 1) =
          distance (p ++ [x]).reverse (q ++ [y]).reverse := by
      simp only [List.reverse_append, List.reverse_singleton, List.singleton_append]
      exact (distance_cons_cons x y _ _).symm
    rw [rowOf, rowOf_eq_cons p, extendRow, hhere, ← rowOf_eq_cons, ih, rowOf, List.tail_cons,
      ← rowOf_eq_cons]

theorem nextRow_eq (x : UInt8) (p b : List UInt8) :
    nextRow b (rowOf p [] b) x = rowOf (p ++ [x]) [] b := by
  have hleft : (rowOf p [] b).headD 0 + 1 = distance (p ++ [x]).reverse [].reverse := by
    rw [rowOf_eq_cons]
    simp
  rw [nextRow, hleft, extendRow_eq, ← rowOf_eq_cons]

theorem foldl_nextRow (p a b : List UInt8) :
    a.foldl (nextRow b) (rowOf p [] b) = rowOf (p ++ a) [] b := by
  induction a generalizing p with
  | nil => rw [List.append_nil]; rfl
  | cons x a ih => rw [List.foldl_cons, nextRow_eq, ih, List.append_assoc, List.singleton_append]

theorem getLast?_rowOf (p q b : List UInt8) :
    (rowOf p q b).getLast? = some (distance p.reverse (q ++ b).reverse) := by
  induction b generalizing q with
  | nil => rw [List.append_nil]; rfl
  | cons y b ih => rw [rowOf, List.getLast?_cons, ih, List.append_assoc]; rfl

/-- The last number of the last row is the distance. -/
theorem editDistance_eq (a b : List UInt8) : editDistance a b = distance a b := by
  rw [editDistance, firstRow_eq, foldl_nextRow, List.getLastD_eq_getLast?, getLast?_rowOf,
    List.nil_append, List.nil_append, distance_reverse]
  rfl

/-- **It is the least number of edits.** -/
theorem editDistance_le_iff : editDistance a b ≤ n ↔ ∃ m ≤ n, Edits m a b := by
  rw [editDistance_eq]
  constructor
  · intro h
    exact ⟨distance a b, h, edits_distance a b⟩
  · rintro ⟨m, hm, h⟩
    exact Nat.le_trans (distance_le_of_edits h) hm

end AssetPack.Text
