import TimePhrase.Proofs.Restriction.Seams

/-!
# The normal form of cuts

Whatever the order of a walk, its cuts come out in one form: whole characters of the text, in order and
with something left between two of them, that hold every span and besides the spans only blanks and
commas. Stretching is what this form has to survive. A stretched cut can reach the next one, the two
are then joined, and the join is stretched again, so that a blank in front of a cut never meets one
behind it.

* `IsNormal`  the normal form
* `exists_visited_of_mem_planCuts`  a cut begins with one of the spans, so it is not empty
* `isNormal_planCuts`  every walk ends in the normal form
-/

namespace TimePhrase.Restriction

open Text

variable {text : Text} {spans : List Span}

/-- Cuts in normal form for some spans of a text. -/
structure IsNormal (text : Text) (spans cuts : List Span) : Prop where
  pos : ∀ c ∈ cuts, 0 < c.len
  aligned : ∀ c ∈ cuts, c.Aligned text
  stop_le : ∀ c ∈ cuts, c.stop ≤ byteSize text
  apart : cuts.Pairwise fun a b => a.stop < b.start
  /-- A span that is not empty is in one cut. -/
  within : ∀ s ∈ spans, 0 < s.len → ∃! c, c ∈ cuts ∧ c.start ≤ s.start ∧ s.stop ≤ c.stop
  /-- What a cut takes besides the spans are blanks and commas. -/
  gap : ∀ c ∈ cuts, ∀ x ∈ text.placed 0, c.start ≤ x.1 → x.1 < c.stop →
    (∀ s ∈ spans, ¬(s.start ≤ x.1 ∧ x.1 < s.stop)) → isBlank x.2 = true ∨ x.2 = ','
  /-- The character that ends where a cut starts and the one that stands where it stops are not
      both blank. -/
  seam : ∀ c ∈ cuts, ∀ x ∈ text.placed 0, x.1 + x.2.utf8Size = c.start →
    ∀ y ∈ text.placed 0, y.1 = c.stop → ¬(isBlank x.2 = true ∧ isBlank y.2 = true)

/-! ## Cuts are not empty -/

/-- Empty spans make no difference to the cuts. -/
theorem planCuts_visited (text : Text) (spans : List Span) :
    planCuts text (visited spans) = planCuts text spans := by
  rw [planCuts, planCuts, visited, List.filter_filter]
  simp only [Bool.and_self]

/-- Every cut begins with one of the spans that are not empty. -/
theorem exists_visited_of_mem_planCuts (h : ∀ s ∈ spans, s.Aligned text) {c : Span}
    (hc : c ∈ planCuts text spans) :
    ∃ s ∈ visited spans, s.start = c.start ∧ s.stop ≤ c.stop := by
  have hvisited := aligned_visited h
  rw [← planCuts_visited] at hc
  obtain ⟨s, hs, hstart⟩ := exists_start_planCuts hvisited hc
  rw [planCuts_visited] at hc
  obtain ⟨d, hd, hds, hsd⟩ := (covers_planCuts h).within s hs
  -- The cut that holds the span begins no later than it, so the two cuts meet.
  have hs₀ := s.start_le_stop
  have hc₀ := c.start_le_stop
  obtain rfl := eq_of_meet (pairwise_planCuts h) hc hd (by omega) (by omega)
  exact ⟨s, hs, hstart, hsd⟩

theorem len_pos_of_mem_planCuts (h : ∀ s ∈ spans, s.Aligned text) {c : Span}
    (hc : c ∈ planCuts text spans) : 0 < c.len := by
  obtain ⟨s, hs, hstart, hstop⟩ := exists_visited_of_mem_planCuts h hc
  have hpos := (mem_visited.mp hs).2
  simp only [Span.stop] at hstop
  omega

/-! ## The form -/

theorem le_byteSize_of_isBoundary {t : Text} {n : Nat} (h : IsBoundary t n) : n ≤ byteSize t := by
  obtain ⟨a, b, rfl, rfl⟩ := h.exists_append
  rw [byteSize_append]
  exact Nat.le_add_right _ _

/-- The character that ends at a byte is the last one before it. -/
theorem blankBefore_of_mem_placed {t : Text} {x : Nat × Char} (hx : x ∈ t.placed 0)
    (hblank : isBlank x.2 = true) : blankBefore t (x.1 + x.2.utf8Size) = true := by
  obtain ⟨l, r, hl⟩ := List.append_of_mem hx
  obtain ⟨hpos, ht⟩ := eq_append_of_placed_eq hl
  have hsize : x.1 + x.2.utf8Size = byteSize (l.map Prod.snd ++ [x.2]) := by
    rw [hpos, byteSize_append, byteSize_cons, byteSize_nil]
    omega
  have hsplit : t = l.map Prod.snd ++ [x.2] ++ r.map Prod.snd := by
    rw [ht, List.append_assoc, List.singleton_append]
  rw [blankBefore, hsize, hsplit, takeBytes_byteSize_append, List.getLast?_concat]
  exact hblank

/-- The cuts of any walk are in normal form. -/
theorem isNormal_planCuts (text : Text) (spans : List Span) (h : ∀ s ∈ spans, s.Aligned text) :
    IsNormal text spans (planCuts text spans) := by
  have hcover := covers_planCuts h
  have hapart := pairwise_planCuts h
  refine ⟨fun c hc => len_pos_of_mem_planCuts h hc, hcover.aligned,
    fun c hc => le_byteSize_of_isBoundary (hcover.aligned c hc).stop, hapart, ?_, ?_, ?_⟩
  · intro s hs hpos
    obtain ⟨c, hc, hcs, hsc⟩ := hcover.within s (mem_visited.mpr ⟨hs, hpos⟩)
    refine ⟨c, ⟨hc, hcs, hsc⟩, fun d ⟨hd, hds, hsd⟩ => ?_⟩
    have := s.start_le_stop
    exact eq_of_meet hapart hd hc (by omega) (by omega)
  · intro c hc x hx hcx hxc hnot
    have hcut : covered (planCuts text spans) x.1 = true := covered_eq_true.mpr ⟨c, hc, hcx, hxc⟩
    rcases hcover.gap x hx hcut with hspan | hgap
    · rw [covered_filter_pos] at hspan
      obtain ⟨s, hs, hsx⟩ := covered_eq_true.mp hspan
      exact absurd hsx (hnot s hs)
    · simpa [isGap] using hgap
  · rintro c hc x hx hxc ⟨byte, d⟩ hd rfl ⟨hblank, hblank'⟩
    have hbefore : blankBefore text c.start = true := hxc ▸ blankBefore_of_mem_placed hx hblank
    have hnot : isBlank d = false := not_isBlank_stop_planCuts h hc hbefore hd
    exact Bool.false_ne_true (hnot.symm.trans hblank')

/-- The em space between `é` and `ü` is no character that a walk gathers, so there are two cuts.
    The first one is stretched over it and reaches the second one, and the two take the blank behind
    them. The span between them is empty and makes no cut. -/
theorem isNormal_planCuts_reaching :
    let text : Text := "x é\u2003ü y, z".toList
    let spans : List Span := [⟨7, 2⟩, ⟨4, 0⟩, ⟨2, 2⟩, ⟨13, 1⟩]
    (∀ s ∈ spans, s.Aligned text) ∧
      gather text none (visited spans) = [⟨7, 2⟩, ⟨2, 2⟩, ⟨13, 1⟩] ∧
      planCuts text spans = [⟨2, 8⟩, ⟨13, 1⟩] ∧ IsNormal text spans [⟨2, 8⟩, ⟨13, 1⟩] := by
  intro text spans
  have h : ∀ s ∈ spans, s.Aligned text := by decide
  have hcuts : planCuts text spans = [⟨2, 8⟩, ⟨13, 1⟩] := by decide
  have hnormal := isNormal_planCuts text spans h
  rw [hcuts] at hnormal
  exact ⟨h, by decide, hcuts, hnormal⟩

end TimePhrase.Restriction
