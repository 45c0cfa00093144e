import TimePhrase.Proofs.Restriction.Extent

/-!
# Where a value lies in its text

Tracing a byte back over the cuts never leaves the text, so the offset and the end of a value lie in
it, an empty value included. Where nothing is cut out, the value is a stretch of the text.

* `offset_add_byteSize_le`  the value ends in the text, counted from its offset
* `first_survivor`  the first character of the value stands at its offset
* `slice_of_no_cut`  the value as a slice of the text, if all spans are empty
-/

namespace TimePhrase.Restriction

open Text

variable {text : Text} {spans : List Span}

/-! ## Bounds -/

/-- A byte of the text without the cuts is traced back to one of the text with them. -/
theorem sourceByte_le {cuts : List Span} {pos n : Nat} {t : Text}
    (h : ∀ s ∈ cuts, s.IsStretch pos t) (hp : cuts.Pairwise fun a b => a.stop < b.start)
    (hn : n ≤ byteSize ((kept cuts pos t).map Prod.snd)) :
    sourceByte cuts (pos + n) ≤ pos + byteSize t := by
  induction cuts generalizing pos t n with
  | nil =>
    rw [kept_eq_placed (by simp), map_snd_placed] at hn
    simp only [sourceByte]
    omega
  | cons c cuts ih =>
    obtain ⟨hc, hr⟩ := List.forall_mem_cons.mp h
    obtain ⟨hcr, hpr⟩ := List.pairwise_cons.mp hp
    obtain ⟨a, b, d, rfl, hcut⟩ := hc
    have hstop : c.stop = pos + byteSize (a ++ b) := by
      rw [Span.stop, hcut, byteSize_append, Nat.add_assoc]
    have hstart : c.start = pos + byteSize a := by rw [hcut]
    rw [kept_cons hcut fun s hs => Nat.le_of_lt (hcr s hs), List.map_append, byteSize_append,
      map_snd_placed] at hn
    rw [byteSize_append (a ++ b), ← Nat.add_assoc, ← hstop]
    by_cases hfront : n < byteSize a
    · -- The byte is in front of the first cut.
      have hle := c.start_le_stop
      rw [sourceByte, if_pos (by omega)]
      omega
    · -- It is behind it.
      obtain ⟨m, rfl⟩ : ∃ m, n = byteSize a + m := ⟨n - byteSize a, by omega⟩
      rw [sourceByte_behind hcut]
      exact ih (isStretch_behind hcut hr hcr) hpr (by omega)

/-- The offset of a value lies in the text. -/
theorem offset_le (h : ∀ s ∈ spans, s.Aligned text) :
    (removeSpans text spans).offset ≤ byteSize text := by
  have hcuts := (covers_planCuts h).aligned
  have hpair := pairwise_planCuts h
  have hstretch := fun s hs => Span.aligned_iff_isStretch.mp (hcuts s hs)
  -- The characters trimmed off the beginning are some of those that are kept.
  have htrim : byteSize ((outside (planCuts text spans) text).takeWhile isTrimmed) ≤
      byteSize (outside (planCuts text spans) text) := by
    conv => rhs; rw [← List.takeWhile_append_dropWhile (p := isTrimmed)
      (l := outside (planCuts text spans) text)]
    rw [byteSize_append]
    omega
  have hsource := sourceByte_le hstretch hpair htrim
  rw [Nat.zero_add, Nat.zero_add, ← removeCuts_eq_outside hcuts hpair] at hsource
  exact hsource

/-- The value ends in the text. -/
theorem extent_le (h : ∀ s ∈ spans, s.Aligned text) (hv : (removeSpans text spans).value ≠ []) :
    extent text spans ≤ byteSize text := by
  obtain ⟨x, hx, -, hext⟩ := last_survivor h hv
  have := (bounds_of_mem_placed hx).2
  omega

/-- Counted from its offset, the value ends in the text, since what is cut out of its middle can
    only make it end further on. -/
theorem offset_add_byteSize_le (h : ∀ s ∈ spans, s.Aligned text) :
    (removeSpans text spans).offset + byteSize (removeSpans text spans).value ≤ byteSize text := by
  by_cases hv : (removeSpans text spans).value = []
  · rw [hv, byteSize_nil]
    exact offset_le h
  · have hle := extent_le h hv
    rw [extent_eq h hv] at hle
    omega

/-! ## The first character -/

/-- The first character of a value stands in the text at the offset, outside all spans. -/
theorem first_survivor (h : ∀ s ∈ spans, s.Aligned text) {c : Char}
    (hc : (removeSpans text spans).value.head? = some c) :
    ((removeSpans text spans).offset, c) ∈ text.placed 0 ∧
      covered spans (removeSpans text spans).offset = false := by
  cases hsurv : survivors text spans with
  | nil =>
    rw [← map_snd_survivors h, hsurv] at hc
    exact nomatch hc
  | cons x l =>
    rw [← map_snd_survivors h, hsurv] at hc
    obtain rfl : x.2 = c := Option.some.inj hc
    rw [offset_eq h hsurv]
    have hmem : x ∈ survivors text spans := hsurv ▸ List.mem_cons_self
    refine ⟨(survivors_sublist text spans).subset hmem, ?_⟩
    -- A surviving character is outside the cuts, which hold all spans.
    obtain ⟨r, hr⟩ := exists_trimPlaced (kept (planCuts text spans) 0 text)
    have hkept : x ∈ kept (planCuts text spans) 0 text := by
      rw [hr, ← survivors]
      simp [hmem]
    have hout : covered (planCuts text spans) x.1 = false := by
      simpa using (List.mem_filter.mp hkept).2
    rw [Bool.eq_false_iff] at hout ⊢
    intro hcov
    rw [← covered_filter_pos] at hcov
    exact hout ((covers_planCuts h).covered_of_covered hcov)

/-! ## Nothing to cut -/

theorem planCuts_of_no_cut (h : ∀ s ∈ spans, s.len = 0) : planCuts text spans = [] := by
  have hnone : spans.filter (fun s => 0 < s.len) = [] := by
    refine List.filter_eq_nil_iff.mpr fun s hs => ?_
    simp [h s hs]
  rw [planCuts, hnone]
  rfl

/-- If all spans are empty, the value is a stretch of the text. -/
theorem slice_of_no_cut (h : ∀ s ∈ spans, s.len = 0) :
    ∃ a b, text = a ++ (removeSpans text spans).value ++ b ∧
      (removeSpans text spans).offset = byteSize a := by
  have hplan : planCuts text spans = [] := planCuts_of_no_cut h
  obtain ⟨b, hb, -⟩ := exists_dropEndWhile isTrimmed (text.dropWhile isTrimmed)
  refine ⟨text.takeWhile isTrimmed, b, ?_, ?_⟩
  · have hvalue : (removeSpans text spans).value = text.stripWhile isTrimmed := by
      simp only [removeSpans, hplan, removeCuts, List.foldr_nil]
    rw [hvalue, stripWhile, List.append_assoc, ← hb, List.takeWhile_append_dropWhile]
  · simp only [removeSpans, hplan, removeCuts, List.foldr_nil, sourceByte]

end TimePhrase.Restriction
