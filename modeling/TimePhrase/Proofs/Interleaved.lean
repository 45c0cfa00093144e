import Mathlib.Data.List.Forall2
import Mathlib.Data.List.Perm.Basic

/-!
# Interleaved lists

A list that is put together from two others, so that the members of each keep their own order. A
list is so made of what is left when some of its members are deleted, and of these.

* `Interleaved.filter`, `Interleaved.filter_eq`  choosing among the members
* `Interleaved.exists_forall₂`  lists that are related member by member are put together alike
-/

namespace TimePhrase

/-- The third list has the members of the other two, each in their own order. -/
inductive Interleaved {α : Type} : List α → List α → List α → Prop where
  | nil : Interleaved [] [] []
  | left {x : α} {xs ys zs : List α} : Interleaved xs ys zs → Interleaved (x :: xs) ys (x :: zs)
  | right {y : α} {xs ys zs : List α} : Interleaved xs ys zs → Interleaved xs (y :: ys) (y :: zs)

namespace Interleaved

variable {α β : Type} {xs ys zs : List α}

theorem sublist (h : Interleaved xs ys zs) : xs.Sublist zs := by
  induction h with
  | nil => exact List.Sublist.slnil
  | left _ ih => exact ih.cons_cons _
  | right _ ih => exact ih.cons _

theorem mem_iff (h : Interleaved xs ys zs) {z : α} : z ∈ zs ↔ z ∈ xs ∨ z ∈ ys := by
  induction h with
  | nil => simp
  | left _ ih => rw [List.mem_cons, List.mem_cons, ih, or_assoc]
  | right _ ih => rw [List.mem_cons, List.mem_cons, ih, or_left_comm]

theorem filter (h : Interleaved xs ys zs) (p : α → Bool) :
    Interleaved (xs.filter p) (ys.filter p) (zs.filter p) := by
  induction h with
  | nil => exact .nil
  | @left x _ _ _ _ ih =>
    by_cases hx : p x = true
    · rw [List.filter_cons_of_pos hx, List.filter_cons_of_pos hx]
      exact .left ih
    · rw [List.filter_cons_of_neg hx, List.filter_cons_of_neg hx]
      exact ih
  | @right y _ _ _ _ ih =>
    by_cases hy : p y = true
    · rw [List.filter_cons_of_pos hy, List.filter_cons_of_pos hy]
      exact .right ih
    · rw [List.filter_cons_of_neg hy, List.filter_cons_of_neg hy]
      exact ih

theorem eq_of_nil (h : Interleaved xs [] zs) : zs = xs := by
  induction xs generalizing zs with
  | nil =>
    cases h
    rfl
  | cons x xs ih =>
    cases h with
    | left h => rw [ih h]

/-- Where none of the second list is chosen, it does not matter. -/
theorem filter_eq (h : Interleaved xs ys zs) {p : α → Bool} (hp : ∀ y ∈ ys, p y = false) :
    zs.filter p = xs.filter p := by
  have hnone : ys.filter p = [] := List.filter_eq_nil_iff.mpr fun y hy => by simp [hp y hy]
  have hfilter := h.filter p
  rw [hnone] at hfilter
  exact hfilter.eq_of_nil

/-- A list that is related to an interleaved one is made of two that are related to its parts. -/
theorem exists_forall₂ (h : Interleaved xs ys zs) {R : α → β → Prop} {ws : List β}
    (hws : List.Forall₂ R zs ws) :
    ∃ us vs, List.Forall₂ R xs us ∧ List.Forall₂ R ys vs ∧ Interleaved us vs ws := by
  induction h generalizing ws with
  | nil =>
    obtain rfl := List.forall₂_nil_left_iff.mp hws
    exact ⟨[], [], .nil, .nil, .nil⟩
  | left _ ih =>
    obtain ⟨w, ws, hw, hrest, rfl⟩ := List.forall₂_cons_left_iff.mp hws
    obtain ⟨us, vs, hus, hvs, hinter⟩ := ih hrest
    exact ⟨w :: us, vs, .cons hw hus, hvs, .left hinter⟩
  | right _ ih =>
    obtain ⟨w, ws, hw, hrest, rfl⟩ := List.forall₂_cons_left_iff.mp hws
    obtain ⟨us, vs, hus, hvs, hinter⟩ := ih hrest
    exact ⟨us, w :: vs, hus, .cons hw hvs, .right hinter⟩

end Interleaved

end TimePhrase
