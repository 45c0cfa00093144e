import Mathlib.Data.List.Chain
import TimePhrase.Text.CaseMap

/-!
# Maps between characters by ranges

Where the runs of a map ascend, a code point is a source of at most one of them, and the search for
it does not stop too early. Whether the images of a run are sources themselves is told from the
bounds of the runs, or from one of them having odd sources where the other one has even ones.

* `CaseMap.IsProper`  runs that ascend
* `CaseMap.applyTo_of_holds`, `CaseMap.applyTo_of_not_holds`  what a code point is sent to
* `CaseMap.mem_sources`  what is sent to a code point
* `CaseRun.not_holds_of_isSparedBy`  code points that are told apart from sources
-/

namespace TimePhrase

namespace CaseRun

theorem bounds_of_holds {r : CaseRun} {n : Nat} (h : r.holds n = true) :
    r.first ≤ n ∧ n ≤ r.last ∧ (n - r.first) % r.step = 0 := by
  simpa [holds, and_assoc] using h

/-- A run that is not empty and ends before another one begins. -/
abbrev IsBefore (r q : CaseRun) : Prop := r.first ≤ r.last ∧ r.last < q.first

instance : IsTrans CaseRun IsBefore where
  trans r q s hrq hqs := ⟨hrq.1, by omega⟩

/-- The distance between neighbouring sources. A single source has no neighbours at any distance. -/
def stride (r : CaseRun) : Nat := if r.first = r.last then 2 else r.step

end CaseRun

namespace CaseMap

/-- Runs that ascend, none of which is empty or begins with zero. -/
structure IsProper (m : CaseMap) : Prop where
  ascending : m.Pairwise fun r q => r.last < q.first
  filled : ∀ r ∈ m, 0 < r.first ∧ r.first ≤ r.last

section IsProper

variable {m : CaseMap} {r : CaseRun} {n k : Nat}

theorem IsProper.tail (h : IsProper (r :: m)) : IsProper m where
  ascending := h.ascending.tail
  filled q hq := h.filled q (List.mem_cons_of_mem r hq)

/-- It is enough to compare neighbours. -/
theorem isProper_of_isChain (hchain : m.IsChain CaseRun.IsBefore)
    (hfilled : ∀ r ∈ m, 0 < r.first ∧ r.first ≤ r.last) : IsProper m where
  ascending := (List.isChain_iff_pairwise.mp hchain).imp And.right
  filled := hfilled

theorem IsProper.last_lt_first (h : IsProper (r :: m)) : ∀ q ∈ m, r.last < q.first :=
  (List.pairwise_cons.mp h.ascending).1

/-- A code point that is no source stays as it is. -/
theorem applyTo_of_not_holds (h : ∀ r ∈ m, r.holds n = false) : m.applyTo n = n := by
  induction m with
  | nil => rfl
  | cons r m ih =>
    obtain ⟨hr, hm⟩ := List.forall_mem_cons.mp h
    simp only [applyTo, hr, Bool.false_eq_true, if_false, ih hm, ite_self]

/-- A source is sent as far away as its run says. -/
theorem applyTo_of_holds (hm : IsProper m) (hr : r ∈ m) (h : r.holds n = true) :
    m.applyTo n = (n + r.offset : Int).toNat := by
  induction m with
  | nil => exact absurd hr List.not_mem_nil
  | cons q m ih =>
    obtain ⟨hfirst, hlast, -⟩ := CaseRun.bounds_of_holds h
    rw [applyTo]
    rcases List.mem_cons.mp hr with rfl | hr
    · rw [if_neg (by omega), if_pos h]
    · -- The source lies behind all runs before its own one.
      have hlt := hm.last_lt_first r hr
      have hfilled := (hm.filled q List.mem_cons_self).2
      have hnot : q.holds n = false := by
        rw [Bool.eq_false_iff]
        intro hq
        have := (CaseRun.bounds_of_holds hq).2.1
        omega
      rw [if_neg (by omega), hnot, if_neg Bool.false_ne_true]
      exact ih hm.tail hr

/-- What is sent to a code point by some run. -/
theorem mem_sources (hm : IsProper m) :
    k ∈ m.sources n ↔ ∃ r ∈ m, r.holds k = true ∧ (k + r.offset : Int) = n := by
  rw [sources, List.mem_filterMap]
  constructor
  · rintro ⟨r, hr, hsource⟩
    simp only [CaseRun.source?] at hsource
    split at hsource
    · rename_i hholds
      obtain rfl := Option.some.inj hsource
      have hpos := (hm.filled r hr).1
      have hfirst := (CaseRun.bounds_of_holds hholds).1
      exact ⟨r, hr, hholds, by omega⟩
    · exact nomatch hsource
  · rintro ⟨r, hr, hholds, hsum⟩
    have hk : (n - r.offset : Int).toNat = k := by omega
    refine ⟨r, hr, ?_⟩
    simp only [CaseRun.source?, hk, hholds, if_true]

end IsProper

/-! ## Code points that are no sources -/

/-- Whether no code point from `lo` to `hi` is a source, as far as bounds tell, or odd and even ones
    if there is a distance of two between neighbours. -/
def spares (lo hi stride : Nat) : CaseMap → Bool
  | [] => true
  | q :: m =>
    Nat.ble (hi + 1) q.first ||
      ((Nat.ble (q.last + 1) lo ||
        (Nat.beq q.step 2 && Nat.beq stride 2 && Nat.beq ((lo + q.first) % 2) 1)) &&
          spares lo hi stride m)

theorem not_holds_of_spares {m : CaseMap} (hm : IsProper m) {lo hi stride n : Nat}
    (h : m.spares lo hi stride = true) (hlo : lo ≤ n) (hhi : n ≤ hi)
    (hstride : stride = 2 → (n - lo) % 2 = 0) : ∀ q ∈ m, q.holds n = false := by
  induction m with
  | nil => exact nofun
  | cons q m ih =>
    have hfilled := (hm.filled q List.mem_cons_self).2
    simp only [spares, Bool.or_eq_true, Bool.and_eq_true, Nat.ble_eq, Nat.beq_eq] at h
    rcases h with habove | ⟨hbelow, hrest⟩
    · -- The search ends here, since the other runs lie even higher.
      have hnot (r : CaseRun) (hr : q.first ≤ r.first) : r.holds n = false := by
        rw [Bool.eq_false_iff]
        intro hn
        have := (CaseRun.bounds_of_holds hn).1
        omega
      refine List.forall_mem_cons.mpr ⟨hnot q (Nat.le_refl _), fun r hr => hnot r ?_⟩
      have := hm.last_lt_first r hr
      omega
    · refine List.forall_mem_cons.mpr ⟨?_, ih hm.tail hrest⟩
      rw [Bool.eq_false_iff]
      intro hn
      obtain ⟨hfirst, hlast, hstep⟩ := CaseRun.bounds_of_holds hn
      rcases hbelow with hbelow | ⟨⟨hq, htwo⟩, hodd⟩
      · omega
      · have := hstride htwo
        rw [hq] at hstep
        omega

end CaseMap

namespace CaseRun

/-- Whether no source of the run, moved by a distance, is a source of a map. -/
def isSparedBy (r : CaseRun) (distance : Int) (m : CaseMap) : Bool :=
  m.spares (r.first + distance).toNat (r.last + distance).toNat r.stride

theorem not_holds_of_isSparedBy {r : CaseRun} {distance : Int} {m : CaseMap} (hm : m.IsProper)
    (h : r.isSparedBy distance m = true) {n k : Nat} (hn : r.holds n = true)
    (hfirst : 0 ≤ r.first + distance) (hk : (n + distance : Int) = k) :
    ∀ q ∈ m, q.holds k = false := by
  obtain ⟨hlo, hhi, hstep⟩ := bounds_of_holds hn
  apply CaseMap.not_holds_of_spares hm h (by omega) (by omega)
  intro htwo
  unfold stride at htwo
  split at htwo
  · omega
  · rw [htwo] at hstep
    omega

/-- Whether all sources of the run are sources of another one that are sent just as far. -/
def isWithin (r q : CaseRun) : Bool :=
  Nat.ble q.first r.first && Nat.ble r.last q.last && r.offset == q.offset &&
    (r.first - q.first) % q.step == 0 && (q.step == 1 || r.stride == q.step)

theorem holds_of_isWithin {r q : CaseRun} (h : r.isWithin q = true) {n : Nat}
    (hn : r.holds n = true) : q.holds n = true ∧ q.offset = r.offset := by
  obtain ⟨hlo, hhi, hstep⟩ := bounds_of_holds hn
  simp only [isWithin, Bool.and_eq_true, Nat.ble_eq, beq_iff_eq, Bool.or_eq_true] at h
  obtain ⟨⟨⟨⟨hfirst, hlast⟩, hoffset⟩, hstart⟩, hstride⟩ := h
  refine ⟨?_, hoffset.symm⟩
  have hmod : (n - q.first) % q.step = 0 := by
    have hsplit : n - q.first = (n - r.first) + (r.first - q.first) := by omega
    rcases hstride with hone | hsame
    · rw [hone, Nat.mod_one]
    · unfold stride at hsame
      split at hsame
      · have hsingle : n = r.first := by omega
        rw [hsingle]
        exact hstart
      · rw [hsplit, Nat.add_mod, hstart, ← hsame, hstep, Nat.add_zero, Nat.zero_mod]
  simp only [holds, Bool.and_eq_true, decide_eq_true_eq, beq_iff_eq]
  exact ⟨⟨by omega, by omega⟩, hmod⟩

end CaseRun

end TimePhrase
