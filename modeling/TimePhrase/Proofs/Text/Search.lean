import Mathlib.Data.List.Infix
import Mathlib.Data.List.TakeWhile
import TimePhrase.Text.Basic

/-!
# Searches in longer texts

What a text begins with, where another one occurs in it first, and how far a run of characters goes
is the same in a longer text, if it has been decided before the end.

* `after?_append_right`, `after?_append_eq_none`  what a text begins with
* `breakOn?_append`  the first occurrence of a text
* `dropWhile_append_of_eq_cons`, `takeWhile_append_of_dropWhile_eq_cons`  a run of characters
-/

namespace TimePhrase

namespace Text

variable {s mark body rest : Text}

/-! ## Beginnings -/

theorem after?_append_right {p r : Text} (h : s.after? p = some r) (z : Text) :
    after? (s ++ z) p = some (r ++ z) := by
  rw [eq_append_of_after? h, List.append_assoc, after?_append]

/-- A text can only come to begin with another one by getting longer if it has been a part of it. -/
theorem isPrefix_of_after?_append {z : Text} (h : s.after? mark = none)
    (hlong : after? (s ++ z) mark ≠ none) : s <+: mark := by
  induction mark generalizing s with
  | nil => cases s <;> exact nomatch h
  | cons a mark ih =>
    cases s with
    | nil => exact List.nil_prefix
    | cons c s =>
      simp only [List.cons_append, after?] at h hlong
      split at h
      · rename_i hac
        rw [if_pos hac] at hlong
        rw [hac]
        exact (List.prefix_cons_inj c).mpr (ih h hlong)
      · rename_i hac
        rw [if_neg hac] at hlong
        exact absurd rfl hlong

/-- A text that does not begin with another one does not do so either when it gets longer, if it
    has been long enough. -/
theorem after?_append_eq_none (h : s.after? mark = none) (hlen : mark.length ≤ s.length) (z : Text) :
    after? (s ++ z) mark = none := by
  by_contra hlong
  have heq := (isPrefix_of_after?_append h hlong).eq_of_length_le hlen
  have hself := after?_append mark []
  rw [List.append_nil, ← heq] at hself
  rw [← heq, hself] at h
  exact nomatch h

/-- Nor does it if it has a character that the other one does not have. -/
theorem after?_append_eq_none_of_mem {c : Char} (h : s.after? mark = none) (hs : c ∈ s)
    (hmark : c ∉ mark) (z : Text) : after? (s ++ z) mark = none := by
  by_contra hlong
  exact hmark ((isPrefix_of_after?_append h hlong).subset hs)

/-! ## Occurrences -/

theorem eq_append_of_breakOn? (h : s.breakOn? mark = some (body, rest)) :
    s = body ++ mark ++ rest := by
  induction s generalizing body with
  | nil =>
    unfold breakOn? at h
    split at h
    · rename_i r hr
      obtain ⟨rfl, rfl⟩ := Prod.mk.inj (Option.some.inj h)
      exact eq_append_of_after? hr
    · exact nomatch h
  | cons c s ih =>
    unfold breakOn? at h
    split at h
    · rename_i r hr
      obtain ⟨rfl, rfl⟩ := Prod.mk.inj (Option.some.inj h)
      exact eq_append_of_after? hr
    · obtain ⟨⟨body', rest'⟩, hbreak, heq⟩ := Option.map_eq_some_iff.mp h
      obtain ⟨rfl, rfl⟩ := Prod.mk.inj heq
      rw [ih hbreak]
      rfl

/-- The first occurrence of a text is the first one in a longer text. -/
theorem breakOn?_append (h : s.breakOn? mark = some (body, rest)) (z : Text) :
    breakOn? (s ++ z) mark = some (body, rest ++ z) := by
  have hlen : mark.length ≤ s.length := by
    rw [eq_append_of_breakOn? h, List.length_append, List.length_append]
    omega
  induction s generalizing body with
  | nil =>
    obtain rfl : mark = [] := List.eq_nil_of_length_eq_zero (Nat.le_zero.mp hlen)
    obtain ⟨rfl, rfl⟩ := Prod.mk.inj (Option.some.inj h)
    cases z <;> rfl
  | cons c s ih =>
    unfold breakOn? at h
    rw [List.cons_append]
    unfold breakOn?
    cases hafter : after? (c :: s) mark with
    | some r =>
      rw [hafter] at h
      obtain ⟨rfl, rfl⟩ := Prod.mk.inj (Option.some.inj h)
      rw [← List.cons_append, after?_append_right hafter]
    | none =>
      rw [hafter] at h
      obtain ⟨⟨body', rest'⟩, hbreak, heq⟩ := Option.map_eq_some_iff.mp h
      obtain ⟨rfl, rfl⟩ := Prod.mk.inj heq
      have hlen' : mark.length ≤ s.length := by
        rw [eq_append_of_breakOn? hbreak, List.length_append, List.length_append]
        omega
      rw [← List.cons_append, after?_append_eq_none hafter hlen]
      show Option.map _ (breakOn? (s ++ z) mark) = _
      rw [ih hbreak hlen']
      rfl

/-- What occurs nowhere in a text occurs nowhere in the end of it. -/
theorem breakOn?_eq_none_of_append {z : Text} (h : breakOn? (s ++ z) mark = none) :
    z.breakOn? mark = none := by
  induction s with
  | nil => exact h
  | cons c s ih =>
    rw [List.cons_append] at h
    unfold breakOn? at h
    split at h
    · exact nomatch h
    · exact ih (Option.map_eq_none_iff.mp h)

/-! ## Runs -/

variable {p : Char → Bool} {c : Char}

/-- A run that has ended goes no further in a longer text. -/
theorem dropWhile_append_of_eq_cons (h : s.dropWhile p = c :: rest) (z : Text) :
    (s ++ z).dropWhile p = c :: (rest ++ z) := by
  rw [List.dropWhile_append, h]
  rfl

theorem takeWhile_append_of_dropWhile_eq_cons (h : s.dropWhile p = c :: rest) (z : Text) :
    (s ++ z).takeWhile p = s.takeWhile p := by
  have hlen := congrArg List.length (List.takeWhile_append_dropWhile (p := p) (l := s))
  rw [h, List.length_append, List.length_cons] at hlen
  rw [List.takeWhile_append, if_neg (by omega)]

theorem drop_length_takeWhile (p : Char → Bool) (s : Text) :
    s.drop (s.takeWhile p).length = s.dropWhile p := by
  have hdrop := @List.drop_left _ (s.takeWhile p) (s.dropWhile p)
  rwa [List.takeWhile_append_dropWhile] at hdrop

end Text

end TimePhrase
