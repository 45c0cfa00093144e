import TimePhrase.Text.Basic

/-!
# Tables of character ranges

A class of characters given by a standard is an ascending list of disjoint ranges of code points.
-/

namespace TimePhrase

/-- Ascending, disjoint ranges of code points, both ends included. -/
abbrev CharTable := List (Nat × Nat)

namespace CharTable

/-- Looks a code point up; the search ends at the first range above it. -/
def covers : CharTable → Nat → Bool
  | [], _ => false
  | (lo, hi) :: r, n => if n < lo then false else n ≤ hi || covers r n

/-- Whether the class holds a character. -/
def has (t : CharTable) (c : Char) : Bool := t.covers c.toNat

theorem covers_of_head {lo hi n : Nat} (hlo : lo ≤ n) (hhi : n ≤ hi) (t : CharTable) :
    covers ((lo, hi) :: t) n = true := by
  rw [covers, if_neg (by omega), decide_eq_true hhi, Bool.true_or]

theorem exists_of_covers {t : CharTable} {n : Nat} (h : t.covers n = true) :
    ∃ r ∈ t, r.1 ≤ n ∧ n ≤ r.2 := by
  induction t with
  | nil => simp [covers] at h
  | cons r t ih =>
    obtain ⟨lo, hi⟩ := r
    simp only [covers] at h
    split at h
    · simp at h
    · rename_i hlo
      rcases Bool.or_eq_true_iff.mp h with h | h
      · exact ⟨(lo, hi), List.mem_cons_self .., by simpa using hlo, by simpa using h⟩
      · obtain ⟨s, hs, hb⟩ := ih h
        exact ⟨s, List.mem_cons_of_mem _ hs, hb⟩

end CharTable

end TimePhrase
