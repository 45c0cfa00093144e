import Mathlib.Data.List.Pairwise
import Mathlib.Data.List.Sort
import TimePhrase.Grammar.Overlap

/-!
# Overlaps are resolved greedily

Candidates come in the order of their places, and the last one kept is compared with the next. It
can be replaced, but only by one at its own place that ranks above it. So its end never moves back,
and what it has hidden stays hidden.

* `isGreedy_resolve`  what is kept of a list of candidates
* `IsGreedy.outlines_eq`  what is kept when the same candidates come in another order
-/

namespace TimePhrase.Match

/-- The length of a match and the number of its facts. -/
def rank (m : Match) : Nat × Nat := (Text.byteSize m.value, m.facts.size)

/-- Lexicographic order of the ranks. -/
def RanksBelow (m n : Match) : Prop := Prod.Lex (· < ·) (· < ·) m.rank n.rank

/-- Lexicographic order of the ranks, or equal ranks. -/
def RanksUpTo (m n : Match) : Prop := Prod.Lex (· < ·) (· ≤ ·) m.rank n.rank

theorem ranksBelow_iff {m n : Match} : m.RanksBelow n ↔
    Text.byteSize m.value < Text.byteSize n.value ∨
      Text.byteSize m.value = Text.byteSize n.value ∧ m.facts.size < n.facts.size :=
  Prod.lex_def

theorem ranksUpTo_iff {m n : Match} : m.RanksUpTo n ↔
    Text.byteSize m.value < Text.byteSize n.value ∨
      Text.byteSize m.value = Text.byteSize n.value ∧ m.facts.size ≤ n.facts.size :=
  Prod.lex_def

theorem ranksUpTo_refl (m : Match) : m.RanksUpTo m :=
  ranksUpTo_iff.mpr (.inr ⟨rfl, Nat.le_refl _⟩)

theorem RanksBelow.ranksUpTo {m n : Match} (h : m.RanksBelow n) : m.RanksUpTo n := by
  rw [ranksBelow_iff] at h
  rw [ranksUpTo_iff]
  omega

theorem RanksBelow.trans_ranksUpTo {k m n : Match} (h₁ : k.RanksBelow m) (h₂ : m.RanksUpTo n) :
    k.RanksBelow n := by
  rw [ranksBelow_iff] at h₁ ⊢
  rw [ranksUpTo_iff] at h₂
  omega

theorem RanksUpTo.trans_ranksBelow {k m n : Match} (h₁ : k.RanksUpTo m) (h₂ : m.RanksBelow n) :
    k.RanksBelow n := by
  rw [ranksBelow_iff] at h₂ ⊢
  rw [ranksUpTo_iff] at h₁
  omega

theorem improves_iff {m last : Match} : m.improves last = true ↔ last.RanksBelow m := by
  rw [ranksBelow_iff]
  simp only [improves, Bool.or_eq_true, Bool.and_eq_true, decide_eq_true_eq, beq_iff_eq]
  omega

theorem ranksUpTo_of_not_improves {m last : Match} (h : ¬ m.improves last = true) :
    m.RanksUpTo last := by
  rw [improves_iff, ranksBelow_iff] at h
  rw [ranksUpTo_iff]
  omega

theorem index_le_stop (m : Match) : m.index ≤ m.stop := Nat.le_add_right _ _

/-! ## The greedy choice -/

/-- Places never fall. -/
abbrev Ordered (l : List Match) : Prop := l.Pairwise fun a b => a.index ≤ b.index

/-- What is kept of candidates that come in the order of their places. -/
structure IsGreedy (candidates chosen : List Match) : Prop where
  sublist : chosen.Sublist candidates
  /-- What is kept begins past the end of what has been kept before. -/
  apart : chosen.Pairwise fun a b => a.stop < b.index
  /-- Every candidate begins within one that is kept. -/
  reached : ∀ c ∈ candidates, ∃ k ∈ chosen, k.index ≤ c.index ∧ c.index ≤ k.stop
  /-- What is kept is the first at its place of those that rank highest there. -/
  first : ∀ k ∈ chosen, ∃ before after, candidates = before ++ k :: after ∧
    (∀ c ∈ before, c.index = k.index → c.RanksBelow k) ∧
    ∀ c ∈ after, c.index = k.index → c.RanksUpTo k

namespace IsGreedy

variable {last m : Match} {r chosen : List Match}

theorem ranksUpTo {candidates : List Match} (h : IsGreedy candidates chosen) {c k : Match}
    (hc : c ∈ candidates) (hk : k ∈ chosen) (hi : c.index = k.index) : c.RanksUpTo k := by
  obtain ⟨before, after, rfl, hb, ha⟩ := h.first k hk
  rcases List.mem_append.mp hc with hc | hc
  · exact (hb c hc hi).ranksUpTo
  · rcases List.mem_cons.mp hc with rfl | hc
    · exact ranksUpTo_refl c
    · exact ha c hc hi

/-- The last one kept is final when the next candidate begins past its end. -/
theorem keep (ho : Ordered (last :: m :: r)) (hpast : last.stop < m.index)
    (h : IsGreedy (m :: r) chosen) : IsGreedy (last :: m :: r) (last :: chosen) := by
  have hle := last.index_le_stop
  obtain ⟨hm, -⟩ := List.pairwise_cons.mp ho.tail
  have hbehind : ∀ c ∈ m :: r, last.stop < c.index := by
    refine List.forall_mem_cons.mpr ⟨hpast, fun c hc => ?_⟩
    have := hm c hc
    omega
  refine ⟨h.sublist.cons_cons last, ?_, ?_, ?_⟩
  · exact List.pairwise_cons.mpr ⟨fun k hk => hbehind k (h.sublist.subset hk), h.apart⟩
  · refine List.forall_mem_cons.mpr ⟨⟨last, List.mem_cons_self, Nat.le_refl _, hle⟩, ?_⟩
    intro c hc
    obtain ⟨k, hk, hkc⟩ := h.reached c hc
    exact ⟨k, List.mem_cons_of_mem last hk, hkc⟩
  · refine List.forall_mem_cons.mpr ⟨⟨[], m :: r, rfl, by simp, fun c hc hi => ?_⟩, ?_⟩
    · have := hbehind c hc
      omega
    · intro k hk
      obtain ⟨before, after, he, hb, ha⟩ := h.first k hk
      refine ⟨last :: before, after, by rw [he, List.cons_append], ?_, ha⟩
      refine List.forall_mem_cons.mpr ⟨fun hi => ?_, hb⟩
      have := hbehind k (h.sublist.subset hk)
      omega

/-- A candidate at the same place that ranks above the last one kept takes its place. -/
theorem replace (hi : m.index = last.index) (hrank : last.RanksBelow m)
    (h : IsGreedy (m :: r) chosen) : IsGreedy (last :: m :: r) chosen := by
  refine ⟨h.sublist.cons last, h.apart, ?_, ?_⟩
  · refine List.forall_mem_cons.mpr ⟨?_, h.reached⟩
    rw [← hi]
    exact h.reached m List.mem_cons_self
  · intro k hk
    obtain ⟨before, after, he, hb, ha⟩ := h.first k hk
    refine ⟨last :: before, after, by rw [he, List.cons_append], ?_, ha⟩
    refine List.forall_mem_cons.mpr ⟨fun hik => ?_, hb⟩
    exact hrank.trans_ranksUpTo (h.ranksUpTo List.mem_cons_self hk (hi.trans hik))

/-- Any other candidate up to the end of the last one kept is dropped. What has become of the last
    one kept still hides it. -/
theorem drop (ho : Ordered (last :: m :: r)) (hwithin : m.index ≤ last.stop)
    (hrank : m.index = last.index → m.RanksUpTo last) {k₀ : Match} {chosen : List Match}
    (hi : k₀.index = last.index) (hstop : last.stop ≤ k₀.stop)
    (h : IsGreedy (last :: r) (k₀ :: chosen)) : IsGreedy (last :: m :: r) (k₀ :: chosen) := by
  have hlm : last.index ≤ m.index := (List.pairwise_cons.mp ho).1 m List.mem_cons_self
  -- Only the first one kept can be at the place of the dropped candidate.
  have hplace : ∀ k ∈ k₀ :: chosen, m.index = k.index → k.index = last.index := by
    refine List.forall_mem_cons.mpr ⟨fun _ => hi, fun k hk hmk => ?_⟩
    have := (List.pairwise_cons.mp h.apart).1 k hk
    omega
  have hbelow : ∀ k ∈ k₀ :: chosen, last.RanksBelow k → m.index = k.index → m.RanksBelow k := by
    intro k hk hlast hmk
    exact (hrank (hmk.trans (hplace k hk hmk))).trans_ranksBelow hlast
  refine ⟨h.sublist.trans ((List.sublist_cons_self m r).cons_cons last), h.apart, ?_, ?_⟩
  · intro c hc
    rcases List.mem_cons.mp hc with rfl | hc
    · exact h.reached c List.mem_cons_self
    · rcases List.mem_cons.mp hc with rfl | hc
      · exact ⟨k₀, List.mem_cons_self, by omega, by omega⟩
      · exact h.reached c (List.mem_cons_of_mem last hc)
  · intro k hk
    obtain ⟨before, after, he, hb, ha⟩ := h.first k hk
    -- The dropped candidate comes right after the last one kept.
    cases before with
    | nil =>
      obtain ⟨rfl, rfl⟩ := List.cons.inj he
      exact ⟨[], m :: r, rfl, by simp, List.forall_mem_cons.mpr ⟨hrank, ha⟩⟩
    | cons d before =>
      obtain ⟨rfl, rfl⟩ := List.cons.inj he
      obtain ⟨hlast, hb⟩ := List.forall_mem_cons.mp hb
      refine ⟨last :: m :: before, after, rfl, ?_, ha⟩
      refine List.forall_mem_cons.mpr ⟨hlast, List.forall_mem_cons.mpr ⟨fun hmk => ?_, hb⟩⟩
      exact hbelow k hk (hlast (hplace k hk hmk).symm) hmk

end IsGreedy

/-! ## The walk over the candidates -/

/-- What the last one kept becomes is at its place and ends no earlier. -/
theorem exists_resolveAfter (last : Match) (r : List Match) :
    ∃ k chosen, resolveAfter last r = k :: chosen ∧ k.index = last.index ∧ last.stop ≤ k.stop := by
  induction r generalizing last with
  | nil => exact ⟨last, [], rfl, rfl, Nat.le_refl _⟩
  | cons m r ih =>
    simp only [resolveAfter]
    split
    · exact ⟨last, _, rfl, rfl, Nat.le_refl _⟩
    · split
      · rename_i himp
        obtain ⟨k, chosen, hk, hki, hkm⟩ := ih m
        refine ⟨k, chosen, hk, hki.trans himp.1, Nat.le_trans ?_ hkm⟩
        have hrank := (improves_iff.mp himp.2).ranksUpTo
        rw [ranksUpTo_iff] at hrank
        simp only [stop, himp.1]
        omega
      · exact ih last

theorem isGreedy_resolveAfter {last : Match} {r : List Match} (ho : Ordered (last :: r)) :
    IsGreedy (last :: r) (resolveAfter last r) := by
  induction r generalizing last with
  | nil =>
    refine ⟨List.Sublist.refl _, List.pairwise_singleton _ _, ?_, ?_⟩
    · exact fun c hc => ⟨c, hc, Nat.le_refl _, c.index_le_stop⟩
    · refine List.forall_mem_singleton.mpr ⟨[], [], rfl, by simp, by simp⟩
  | cons m r ih =>
    have hom : Ordered (m :: r) := ho.tail
    have hol : Ordered (last :: r) := ho.sublist ((List.sublist_cons_self m r).cons_cons last)
    simp only [resolveAfter]
    split
    · -- The candidate begins past the end of the last one kept.
      rename_i hpast
      exact (ih hom).keep ho hpast
    · rename_i hpast
      split
      · -- It takes the place of the last one kept.
        rename_i himp
        exact (ih hom).replace himp.1 (improves_iff.mp himp.2)
      · -- It is dropped.
        rename_i himp
        obtain ⟨k, chosen, hk, hki, hkl⟩ := exists_resolveAfter last r
        have hgreedy := ih hol
        rw [hk] at hgreedy ⊢
        refine hgreedy.drop ho (by omega) (fun hi => ?_) hki hkl
        exact ranksUpTo_of_not_improves fun h => himp ⟨hi, h⟩

theorem isGreedy_resolve {candidates : List Match} (ho : Ordered candidates) :
    IsGreedy candidates (resolve candidates) := by
  cases candidates with
  | nil => exact ⟨List.Sublist.refl _, List.Pairwise.nil, by simp, by simp [resolve]⟩
  | cons last r => exact isGreedy_resolveAfter ho

/-! ## Other orders of the candidates -/

/-- What there is to compare in two matches when their overlaps are resolved. -/
def outline (m : Match) : Nat × Nat × Nat := (m.index, m.stop, m.facts.size)

/-- Matches at the same place that rank up to each other have the same outline. -/
theorem outline_eq_of_ranksUpTo {m n : Match} (hi : m.index = n.index) (hm : m.RanksUpTo n)
    (hn : n.RanksUpTo m) : m.outline = n.outline := by
  rw [ranksUpTo_iff] at hm hn
  simp only [outline, stop, Prod.mk.injEq]
  omega

namespace IsGreedy

/-- Of two matches that are kept, the one that begins first ends before the other one begins. -/
theorem stop_lt {candidates chosen : List Match} (h : IsGreedy candidates chosen) {k m : Match}
    (hk : k ∈ chosen) (hm : m ∈ chosen) (hlt : k.index < m.index) : k.stop < m.index := by
  have hle := m.index_le_stop
  -- The other order would put the end of `m` in front of `k`.
  have hcases : k.stop < m.index ∨ m.stop < k.index := by
    have hne : k ≠ m := by
      intro heq
      rw [heq] at hlt
      exact Nat.lt_irrefl _ hlt
    have hsymm : chosen.Pairwise fun a b => a.stop < b.index ∨ b.stop < a.index :=
      h.apart.imp Or.inl
    have : Std.Symm fun a b : Match => a.stop < b.index ∨ b.stop < a.index := ⟨fun _ _ => Or.symm⟩
    exact hsymm.forall hk hm hne
  omega

/-- Whatever is kept in one order has its like in the other order. -/
theorem exists_outline_eq {candidates chosen candidates' chosen' : List Match}
    (h : IsGreedy candidates chosen) (h' : IsGreedy candidates' chosen')
    (hperm : candidates.Perm candidates') (k : Match) (hk : k ∈ chosen) :
    ∃ k' ∈ chosen', k'.outline = k.outline := by
  -- By induction on the place. What hides `k` in one order would hide it in the other one, too, so
  -- both orders keep something at its place.
  induction hn : k.index using Nat.strong_induction_on generalizing candidates chosen candidates'
    chosen' k with
  | _ n ih =>
    subst hn
    have hmem := hperm.mem_iff.mp (h.sublist.subset hk)
    obtain ⟨k', hk', hle, hstop⟩ := h'.reached k hmem
    have hmem' := hperm.mem_iff.mpr (h'.sublist.subset hk')
    rcases Nat.eq_or_lt_of_le hle with hi | hlt
    · refine ⟨k', hk', outline_eq_of_ranksUpTo hi ?_ ?_⟩
      · exact h.ranksUpTo hmem' hk hi
      · exact h'.ranksUpTo hmem hk' hi.symm
    · obtain ⟨k₁, hk₁, heq⟩ := ih k'.index hlt h' h hperm.symm k' hk' rfl
      simp only [outline, Prod.mk.injEq] at heq
      have hpast := h.stop_lt hk₁ hk (by omega)
      omega

/-- The same candidates in another order leave the same outlines. -/
theorem outlines_eq {candidates chosen candidates' chosen' : List Match}
    (h : IsGreedy candidates chosen) (h' : IsGreedy candidates' chosen')
    (hperm : candidates.Perm candidates') : chosen.map outline = chosen'.map outline := by
  -- Places rise, so it is enough to compare the members.
  have hsorted {candidates chosen : List Match} (h : IsGreedy candidates chosen) :
      (chosen.map outline).Pairwise fun a b => a.1 < b.1 := by
    rw [List.pairwise_map]
    exact h.apart.imp fun {a b} hab => Nat.lt_of_le_of_lt a.index_le_stop hab
  have hsubset {candidates chosen candidates' chosen' : List Match}
      (h : IsGreedy candidates chosen) (h' : IsGreedy candidates' chosen')
      (hperm : candidates.Perm candidates') : chosen.map outline ⊆ chosen'.map outline := by
    intro a ha
    obtain ⟨k, hk, rfl⟩ := List.mem_map.mp ha
    obtain ⟨k', hk', heq⟩ := h.exists_outline_eq h' hperm k hk
    exact List.mem_map.mpr ⟨k', hk', heq⟩
  have : Std.Antisymm fun a b : Nat × Nat × Nat => a.1 < b.1 :=
    ⟨fun _ _ hab hba => absurd hab (Nat.lt_asymm hba)⟩
  have : Std.Irrefl fun a b : Nat × Nat × Nat => a.1 < b.1 := ⟨fun a => Nat.lt_irrefl a.1⟩
  exact (hsubset h h' hperm).antisymm_of_pairwise (hsorted h) (hsorted h') (hsubset h' h hperm.symm)

end IsGreedy

end TimePhrase.Match
