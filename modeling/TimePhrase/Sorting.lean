/-!
# Stable sorting by a number

Elements with the same number keep their order.

* `sortBy_perm`  sorting only moves elements
* `pairwise_sortBy`  the numbers of a sorted list never fall
* `filter_sortBy`  elements with the same number keep their order
* `sortBy_filter`  elements may be left out before or after sorting
-/

namespace TimePhrase

variable {α : Type}

/-- Puts an element in front of the first one with at least its number. -/
def insertBy (key : α → Nat) (x : α) : List α → List α
  | [] => [x]
  | y :: r => if key x ≤ key y then x :: y :: r else y :: insertBy key x r

/-- Sorts a list by a number of its elements. -/
def sortBy (key : α → Nat) : List α → List α
  | [] => []
  | x :: r => insertBy key x (sortBy key r)

theorem insertBy_perm (key : α → Nat) (x : α) (l : List α) : (insertBy key x l).Perm (x :: l) := by
  induction l with
  | nil => exact List.Perm.refl _
  | cons y r ih =>
    simp only [insertBy]
    split
    · exact List.Perm.refl _
    · exact (List.Perm.cons y ih).trans (List.Perm.swap x y r)

theorem sortBy_perm (key : α → Nat) (l : List α) : (sortBy key l).Perm l := by
  induction l with
  | nil => exact List.Perm.refl _
  | cons x r ih => exact (insertBy_perm key x _).trans (List.Perm.cons x ih)

theorem pairwise_insertBy (key : α → Nat) (x : α) {l : List α}
    (h : l.Pairwise fun a b => key a ≤ key b) :
    (insertBy key x l).Pairwise fun a b => key a ≤ key b := by
  induction l with
  | nil => simp [insertBy]
  | cons y r ih =>
    have ⟨hy, hr⟩ := List.pairwise_cons.mp h
    simp only [insertBy]
    split
    · rename_i hxy
      refine List.pairwise_cons.mpr ⟨fun b hb => ?_, h⟩
      rcases List.mem_cons.mp hb with rfl | hb
      · exact hxy
      · exact Nat.le_trans hxy (hy b hb)
    · rename_i hxy
      refine List.pairwise_cons.mpr ⟨fun b hb => ?_, ih hr⟩
      rcases List.mem_cons.mp ((insertBy_perm key x r).mem_iff.mp hb) with rfl | hb
      · omega
      · exact hy b hb

theorem pairwise_sortBy (key : α → Nat) (l : List α) :
    (sortBy key l).Pairwise fun a b => key a ≤ key b := by
  induction l with
  | nil => exact List.Pairwise.nil
  | cons x r ih => exact pairwise_insertBy key x ih

theorem filter_insertBy (key : α → Nat) (x : α) (l : List α) (n : Nat) :
    (insertBy key x l).filter (fun y => key y == n) =
      (x :: l).filter fun y => key y == n := by
  induction l with
  | nil => rfl
  | cons y r ih =>
    simp only [insertBy]
    split
    · rfl
    · rename_i hxy
      rw [List.filter_cons, ih, List.filter_cons, List.filter_cons, List.filter_cons]
      -- At most one of the two elements that change places has the number.
      by_cases hx : key x = n
      · have hy : key y ≠ n := by omega
        simp [hx, hy]
      · simp [hx]

theorem filter_sortBy (key : α → Nat) (l : List α) (n : Nat) :
    (sortBy key l).filter (fun y => key y == n) = l.filter fun y => key y == n := by
  induction l with
  | nil => rfl
  | cons x r ih => rw [sortBy, filter_insertBy, List.filter_cons, List.filter_cons, ih]

/-! ## Leaving elements out -/

theorem insertBy_of_le (key : α → Nat) {x : α} {l : List α} (h : ∀ y ∈ l, key x ≤ key y) :
    insertBy key x l = x :: l := by
  cases l with
  | nil => rfl
  | cons y r => rw [insertBy, if_pos (h y List.mem_cons_self)]

/-- An element is put in among those that are left at the place where it stands among all. -/
theorem insertBy_filter (key : α → Nat) (p : α → Bool) {x : α} (hx : p x = true) {l : List α}
    (h : l.Pairwise fun a b => key a ≤ key b) :
    insertBy key x (l.filter p) = (insertBy key x l).filter p := by
  induction l with
  | nil => simp [insertBy, hx]
  | cons y r ih =>
    obtain ⟨hy, hr⟩ := List.pairwise_cons.mp h
    by_cases hxy : key x ≤ key y
    · -- All that come behind have at least the same number.
      have hle : ∀ z ∈ (y :: r).filter p, key x ≤ key z := by
        intro z hz
        rcases List.mem_cons.mp (List.mem_filter.mp hz).1 with rfl | hz
        · exact hxy
        · exact Nat.le_trans hxy (hy z hz)
      rw [insertBy_of_le key hle, insertBy, if_pos hxy, List.filter_cons_of_pos hx]
    · rw [insertBy, if_neg hxy]
      by_cases hp : p y = true
      · rw [List.filter_cons_of_pos hp, List.filter_cons_of_pos hp, insertBy, if_neg hxy, ih hr]
      · rw [List.filter_cons_of_neg hp, List.filter_cons_of_neg hp, ih hr]

theorem filter_insertBy_of_neg (key : α → Nat) (p : α → Bool) {x : α} (hx : ¬p x = true)
    (l : List α) : (insertBy key x l).filter p = l.filter p := by
  induction l with
  | nil => rw [insertBy, List.filter_cons_of_neg hx]
  | cons y r ih =>
    simp only [insertBy]
    split
    · rw [List.filter_cons_of_neg hx]
    · rw [List.filter_cons, List.filter_cons, ih]

/-- Leaving elements out and sorting may be done in either order. -/
theorem sortBy_filter (key : α → Nat) (p : α → Bool) (l : List α) :
    sortBy key (l.filter p) = (sortBy key l).filter p := by
  induction l with
  | nil => rfl
  | cons x r ih =>
    by_cases hx : p x = true
    · rw [List.filter_cons_of_pos hx, sortBy, sortBy, ih,
        insertBy_filter key p hx (pairwise_sortBy key r)]
    · rw [List.filter_cons_of_neg hx, sortBy, filter_insertBy_of_neg key p hx, ih]

/-! ## Sorted lists -/

/-- The elements of `l` are in `m` in the order of their numbers, and those with the same number in
    the order of `l`. -/
structure SortedFrom (key : α → Nat) (l m : List α) : Prop where
  perm : m.Perm l
  ordered : m.Pairwise fun a b => key a ≤ key b
  stable : ∀ n, m.filter (fun y => key y == n) = l.filter fun y => key y == n

theorem sortedFrom_sortBy (key : α → Nat) (l : List α) : SortedFrom key l (sortBy key l) :=
  ⟨sortBy_perm key l, pairwise_sortBy key l, filter_sortBy key l⟩

end TimePhrase
