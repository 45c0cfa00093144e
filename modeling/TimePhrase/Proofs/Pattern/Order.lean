import TimePhrase.Proofs.Pattern.Reach

/-!
# Occurrences in order

The search for the next occurrence begins where the last one ended, and it only goes forward. So the
occurrences of a pattern come from left to right, each one behind the end of those before it.

* `byte_le_start_of_first?`  a search finds nothing in front of the place it begins at
* `pairwise_occurrences`  no two occurrences overlap
-/

namespace TimePhrase.Pattern

theorem byte_le_of_next? {s t : Cursor} (h : s.next? = some t) : s.byte ≤ t.byte := by
  obtain ⟨w, -, hbyte, -⟩ := isPassage_reaches.next h
  omega

theorem byte_le_start_of_searchFrom {p : Pattern} {fuel : Nat} {s : Cursor} {m : Occurrence}
    (h : p.searchFrom fuel s = some m) : s.byte ≤ m.start := by
  induction fuel generalizing s with
  | zero => exact nomatch h
  | succ fuel ih =>
    simp only [searchFrom] at h
    split at h
    · obtain rfl := Option.some.inj h
      exact Nat.le_refl s.byte
    · obtain ⟨t, ht, h⟩ := Option.bind_eq_some_iff.mp h
      exact Nat.le_trans (byte_le_of_next? ht) (ih h)

theorem byte_le_start_of_first? {p : Pattern} {s : Cursor} {m : Occurrence}
    (h : p.first? s = some m) : s.byte ≤ m.start :=
  byte_le_start_of_searchFrom (s := { s with captures := [], trail := none }) h

theorem byte_le_start_of_nextAfter? {p : Pattern} {s : Cursor} {m : Occurrence}
    (h : p.nextAfter? s = some m) : s.byte ≤ m.start := by
  unfold nextAfter? at h
  split at h
  · rename_i m' hm'
    split at h
    · -- An empty match right at the beginning does not count, and the search starts again later.
      obtain ⟨t, ht, h⟩ := Option.bind_eq_some_iff.mp h
      exact Nat.le_trans (byte_le_of_next? ht) (byte_le_start_of_first? h)
    · obtain rfl := Option.some.inj h
      exact byte_le_start_of_first? hm'
  · exact nomatch h

/-- An occurrence does not end before its beginning. -/
theorem IsOccurrence.start_le_stop {text a w : Text} {m : Occurrence}
    (h : IsOccurrence text m a w) : m.start ≤ m.stop.byte := by
  rw [h.start, h.stop, Text.byteSize_append]
  omega

/-- The walk over the occurrences keeps behind the byte `least`, and behind each one it has passed. -/
theorem pairwise_occurrencesFrom {p : Pattern} {text : Text} {fuel least : Nat}
    {next : Option Occurrence}
    (hn : ∀ m ∈ next, least ≤ m.start ∧ IsIn text m.stop ∧ ∃ a w, IsOccurrence text m a w) :
    (∀ m ∈ p.occurrencesFrom fuel next, least ≤ m.start) ∧
      (p.occurrencesFrom fuel next).Pairwise fun m n => m.stop.byte ≤ n.start := by
  induction fuel generalizing least next with
  | zero => simp [occurrencesFrom]
  | succ fuel ih =>
    cases next with
    | none => simp [occurrencesFrom]
    | some m =>
      obtain ⟨hleast, hstop, a, w, hm⟩ := hn m rfl
      have hnext : ∀ n ∈ p.nextAfter? m.stop, m.stop.byte ≤ n.start ∧ IsIn text n.stop ∧
          ∃ a w, IsOccurrence text n a w := fun n hn' =>
        ⟨byte_le_start_of_nextAfter? hn', isOccurrence_of_nextAfter? hstop hn'⟩
      obtain ⟨hbehind, hpair⟩ := ih hnext
      simp only [occurrencesFrom, List.forall_mem_cons, List.pairwise_cons]
      refine ⟨⟨hleast, fun n hn' => ?_⟩, hbehind, hpair⟩
      have := hbehind n hn'
      have := hm.start_le_stop
      omega

/-- Every occurrence begins behind the end of those before it. -/
theorem pairwise_occurrences (p : Pattern) (text : Text) :
    (p.occurrences text).Pairwise fun m n => m.stop.byte ≤ n.start := by
  have hfirst : ∀ m ∈ p.firstIn? text, 0 ≤ m.start ∧ IsIn text m.stop ∧
      ∃ a w, IsOccurrence text m a w := fun m hm =>
    ⟨Nat.zero_le _, isOccurrence_of_first? (isIn_start text) hm⟩
  exact (pairwise_occurrencesFrom hfirst).2

end TimePhrase.Pattern
