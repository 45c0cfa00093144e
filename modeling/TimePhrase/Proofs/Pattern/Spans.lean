import TimePhrase.Pattern.Basic
import TimePhrase.Text.Basic

/-!
# What a pattern spans

The stretches of a text that a pattern stands for, without regard to how they are found. A stretch
is given by the bytes at which it begins and ends, so that one pattern after another is one relation
after another, and a repetition is a number of steps of a relation.

* `Spans`  the stretches of any pattern
* `le_of_spans`  no stretch ends before its beginning
* `steps_add`, `steps_succ_right`  steps can be taken apart anywhere
-/

namespace TimePhrase

open Text (byteSize)

/-! ## Places -/

/-- A text is parted in one way only after a number of bytes. -/
theorem Text.eq_of_byteSize_eq {a b c d : Text} (h : a ++ b = c ++ d)
    (hsize : byteSize a = byteSize c) : a = c ∧ b = d := by
  have ha : a = c := by
    rw [← Text.takeBytes_byteSize_append a b, h, hsize, Text.takeBytes_byteSize_append]
  subst ha
  exact ⟨rfl, List.append_cancel_left h⟩

namespace Pattern

/-! ## Steps -/

/-- A number of steps of a relation, one after the other. -/
def Steps (R : Nat → Nat → Prop) : Nat → Nat → Nat → Prop
  | 0, i, j => i = j
  | n + 1, i, j => ∃ k, R i k ∧ Steps R n k j

section Steps

variable {R : Nat → Nat → Prop} {i j k m n : Nat}

theorem steps_one : Steps R 1 i j ↔ R i j := by
  simp only [Steps, exists_eq_right]

theorem steps_add : Steps R (m + n) i j ↔ ∃ k, Steps R m i k ∧ Steps R n k j := by
  induction m generalizing i with
  | zero => simp only [Nat.zero_add, Steps, exists_eq_left']
  | succ m ih =>
    rw [Nat.succ_add]
    simp only [Steps, ih]
    constructor
    · rintro ⟨k, hk, l, hl, hj⟩
      exact ⟨l, ⟨k, hk, hl⟩, hj⟩
    · rintro ⟨l, ⟨k, hk, hl⟩, hj⟩
      exact ⟨k, hk, l, hl, hj⟩

theorem steps_succ_right : Steps R (n + 1) i j ↔ ∃ k, Steps R n i k ∧ R k j := by
  rw [steps_add]
  simp only [steps_one]

theorem le_of_steps (h : ∀ i j, R i j → i ≤ j) (hn : Steps R n i j) : i ≤ j := by
  induction n generalizing i with
  | zero => exact Nat.le_of_eq hn
  | succ n ih =>
    obtain ⟨k, hk, hj⟩ := hn
    exact Nat.le_trans (h i k hk) (ih hj)

/-- Steps that do not get anywhere can be taken any number of times, if once. -/
theorem steps_iff_of_stuck (h : ∀ i j, R i j → i = j) (hn : n ≠ 0) : Steps R n i j ↔ R i j := by
  induction n generalizing i with
  | zero => exact absurd rfl hn
  | succ n ih =>
    by_cases hzero : n = 0
    · subst hzero
      exact steps_one
    · simp only [Steps, ih hzero]
      constructor
      · rintro ⟨k, hk, hj⟩
        obtain rfl := h i k hk
        exact hj
      · intro hj
        obtain rfl := h i j hj
        exact ⟨i, hj, hj⟩

theorem eq_of_steps (h : ∀ i j, R i j → i = j) (hn : Steps R n i j) : i = j := by
  by_cases hzero : n = 0
  · subst hzero
    exact hn
  · exact h i j ((steps_iff_of_stuck h hzero).mp hn)

theorem steps_congr {S : Nat → Nat → Prop} (h : ∀ i j, R i j ↔ S i j) :
    Steps R n i j ↔ Steps S n i j := by
  induction n generalizing i with
  | zero => rfl
  | succ n ih => simp only [Steps, h, ih]

end Steps

/-! ## Stretches -/

/-- The stretches of a text that a pattern stands for: the bytes at which they begin and end. -/
def Spans (text : Text) : Pattern → Nat → Nat → Prop
  | .empty, i, j => i = j
  | .literal t, i, j => ∃ a b, text = a ++ t ++ b ∧ i = byteSize a ∧ j = byteSize (a ++ t)
  | .char set, i, j =>
    ∃ a c b, text = a ++ c :: b ∧ set.has c = true ∧ i = byteSize a ∧ j = i + c.utf8Size
  | .assertion m, i, j =>
    i = j ∧ ∃ a b, text = a ++ b ∧ i = byteSize a ∧ m.holds a.getLast? b.head? = true
  | .group _ _ p, i, j => Spans text p i j
  | .concat p q, i, j => ∃ k, Spans text p i k ∧ Spans text q k j
  | .either p q, i, j => Spans text p i j ∨ Spans text q i j
  | .repetition p least most _, i, j =>
    ∃ more, (∀ m ∈ most, more ≤ m - least) ∧ Steps (Spans text p) (least + more) i j

/-- No stretch ends before its beginning. -/
theorem le_of_spans {text : Text} {p : Pattern} {i j : Nat} (h : Spans text p i j) : i ≤ j := by
  induction p generalizing i j with
  | empty => exact Nat.le_of_eq h
  | literal t =>
    obtain ⟨a, b, -, rfl, rfl⟩ := h
    rw [Text.byteSize_append]
    omega
  | char set =>
    obtain ⟨a, c, b, -, -, -, rfl⟩ := h
    omega
  | assertion m => exact Nat.le_of_eq h.1
  | group index name p ih => exact ih h
  | concat p q ihp ihq =>
    obtain ⟨k, hp, hq⟩ := h
    exact Nat.le_trans (ihp hp) (ihq hq)
  | either p q ihp ihq => exact h.elim ihp ihq
  | repetition p least most greedy ih =>
    obtain ⟨more, -, hsteps⟩ := h
    exact le_of_steps (fun i j => ih) hsteps

end Pattern

end TimePhrase
