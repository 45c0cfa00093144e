import TimePhrase.Proofs.Restriction.Beginning
import TimePhrase.Proofs.Restriction.Walks

/-!
# Seams

Where a cut is taken out, what stood in front of it and what stood behind it meet. A cut is stretched
over the blanks behind it if there is one in front of it, and it is stretched anew whenever it grows,
so that no two gaps meet. What is gathered, joined or stretched never begins anywhere but where one of
the spans does.

* `isStretched_settle`  all cuts are stretched in the end
* `exists_start_planCuts`  a cut begins where a span does
* `not_isBlank_stop_planCuts`  no blanks meet at a seam
-/

namespace TimePhrase.Restriction

open Text

variable {text : Text} {spans : List Span}

/-! ## Stretched cuts -/

/-- A stretched cut: it begins where one of the given cuts does. -/
def IsStretched (text : Text) (cuts : List Span) (t : Span) : Prop :=
  ∃ u : Span, u.Aligned text ∧ (∃ s ∈ cuts, s.start = u.start) ∧ stretch text u = t

theorem isStretched_stretch {cuts : List Span} {u : Span} (hu : u.Aligned text)
    (h : ∃ s ∈ cuts, s.start = u.start) : IsStretched text cuts (stretch text u) :=
  ⟨u, hu, h, rfl⟩

theorem IsStretched.aligned {cuts : List Span} {t : Span} (h : IsStretched text cuts t) :
    t.Aligned text := by
  obtain ⟨u, hu, -, rfl⟩ := h
  exact aligned_stretch hu

theorem IsStretched.exists_start {cuts : List Span} {t : Span} (h : IsStretched text cuts t) :
    ∃ s ∈ cuts, s.start = t.start := by
  obtain ⟨u, -, hu, rfl⟩ := h
  rwa [start_stretch]

/-- All that is settled is stretched, by induction on the cuts that come after the last one. -/
theorem isStretched_settleAfter {cuts : List Span} {last : Span} {r : List Span}
    (hlast : IsStretched text cuts last) (hr : ∀ c ∈ r, c ∈ cuts ∧ c.Aligned text) :
    ∀ t ∈ settleAfter text (some last) r, IsStretched text cuts t := by
  induction r generalizing last with
  | nil => simpa [settleAfter] using hlast
  | cons c r ih =>
    obtain ⟨⟨hc, hal⟩, hr⟩ := List.forall_mem_cons.mp hr
    simp only [settleAfter]
    split
    · -- The cut meets the last one, which grows over it.
      exact ih (isStretched_stretch (Span.aligned_cover hlast.aligned hal)
        (exists_start_cover hlast.exists_start ⟨c, hc, rfl⟩)) hr
    · exact List.forall_mem_cons.mpr ⟨hlast, ih (isStretched_stretch hal ⟨c, hc, rfl⟩) hr⟩

theorem isStretched_settle {cuts : List Span} (h : ∀ c ∈ cuts, c.Aligned text) :
    ∀ t ∈ settle text cuts, IsStretched text cuts t := by
  have hsorted : ∀ c ∈ sortBy Span.start cuts, c ∈ cuts ∧ c.Aligned text := fun c hc =>
    have hmem := (sortBy_perm Span.start cuts).mem_iff.mp hc
    ⟨hmem, h c hmem⟩
  unfold settle
  cases hsort : sortBy Span.start cuts with
  | nil => simp [settleAfter]
  | cons c r =>
    rw [hsort] at hsorted
    obtain ⟨⟨hc, hal⟩, hr⟩ := List.forall_mem_cons.mp hsorted
    exact isStretched_settleAfter (isStretched_stretch hal ⟨c, hc, rfl⟩) hr

/-- Every cut begins where one of the spans does. -/
theorem exists_start_planCuts (h : ∀ s ∈ spans, s.Aligned text) {t : Span}
    (ht : t ∈ planCuts text spans) : ∃ s ∈ spans, s.start = t.start := by
  have hal := (covers_gather none (aligned_visited h)).aligned
  obtain ⟨c, hc, hct⟩ := (isStretched_settle hal t ht).exists_start
  obtain ⟨s, hs, hsc⟩ := (grown_of_mem_gather h c hc).start
  exact ⟨s, (mem_visited.mp hs).1, hsc.trans hct⟩

/-! ## Blanks at a seam -/

/-- Behind a cut that has been stretched there are no blanks. -/
theorem blanksAt_stop_stretch {u : Span} (hu : u.Aligned text)
    (hblank : blankBefore text u.start = true) : blanksAt text (stretch text u).stop = 0 := by
  have hstop : (stretch text u).stop = u.stop + blanksAt text u.stop := by
    rw [stretch, if_pos hblank]
    simp only [Span.stop, blanksAt]
    omega
  have hend := (aligned_stretch hu).stop
  rw [hstop] at hend ⊢
  have hrun := add_blanksAt hu.stop hend (Nat.le_add_right _ _) (Nat.le_refl _)
  omega

theorem not_isBlank_of_blanksAt {n : Nat} {c : Char} (h : blanksAt text n = 0)
    (hc : (n, c) ∈ text.placed 0) : isBlank c = false := by
  have hhead : (text.dropBytes n).head? = some c := head?_dropBytes hc
  obtain ⟨r, hr⟩ := List.head?_eq_some_iff.mp hhead
  rw [blanksAt, hr, List.takeWhile_cons] at h
  rw [Bool.eq_false_iff]
  intro hblank
  have hpos := Char.utf8Size_pos c
  rw [if_pos hblank, byteSize_cons] at h
  omega

/-- No double gap is left: a cut with a blank in front of it has none behind it. -/
theorem not_isBlank_stop_planCuts (h : ∀ s ∈ spans, s.Aligned text) {t : Span}
    (ht : t ∈ planCuts text spans) (hblank : blankBefore text t.start = true) {c : Char}
    (hc : (t.stop, c) ∈ text.placed 0) : isBlank c = false := by
  have hal := (covers_gather none (aligned_visited h)).aligned
  obtain ⟨u, hu, -, rfl⟩ := isStretched_settle hal t ht
  rw [start_stretch] at hblank
  exact not_isBlank_of_blanksAt (blanksAt_stop_stretch hu hblank) hc

end TimePhrase.Restriction
