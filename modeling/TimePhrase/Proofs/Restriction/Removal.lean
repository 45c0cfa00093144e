import TimePhrase.Proofs.Restriction.Cuts
import TimePhrase.Proofs.Text.Trim
import TimePhrase.Restriction.Removal

/-!
# What a removal keeps

Cuts that come in order and apart from each other take exactly the characters they cover: those
behind a cut have moved when it is applied, but those up to its end have not. Together with what the
plan covers, this tells what is left of a text.

* `removeCuts_eq_outside`  cuts take the characters they cover and no others
* `removeSpans_keeps`  only gap characters are taken along with the restricted text
-/

namespace TimePhrase.Restriction

/-- The characters of a text outside some spans, with the bytes they begin at. -/
def kept (spans : List Span) (pos : Nat) (text : Text) : List (Nat × Char) :=
  (text.placed pos).filter fun x => !covered spans x.1

/-- The text outside some spans. -/
def outside (spans : List Span) (text : Text) : Text := (kept spans 0 text).map Prod.snd

section Kept

variable {spans : List Span} {pos : Nat} {text : Text}

theorem kept_append (spans : List Span) (pos : Nat) (s t : Text) :
    kept spans pos (s ++ t) = kept spans pos s ++ kept spans (pos + Text.byteSize s) t := by
  simp only [kept, Text.placed_append, List.filter_append]

/-- A text in front of all spans is kept. -/
theorem kept_eq_placed (h : ∀ s ∈ spans, pos + Text.byteSize text ≤ s.start) :
    kept spans pos text = text.placed pos := by
  refine List.filter_eq_self.mpr fun x hx => ?_
  have hlt := Text.lt_of_mem_placed hx
  rw [Bool.not_eq_true', Bool.eq_false_iff, ne_eq, covered_eq_true]
  rintro ⟨s, hs, hle, -⟩
  have := h s hs
  omega

/-- A text within one of the spans is not kept. -/
theorem kept_eq_nil {s : Span} (hs : s ∈ spans) (h₁ : s.start ≤ pos)
    (h₂ : pos + Text.byteSize text ≤ s.stop) : kept spans pos text = [] := by
  refine List.filter_eq_nil_iff.mpr fun x hx => ?_
  have hb := Text.bounds_of_mem_placed hx
  have hlt := Text.lt_of_mem_placed hx
  rw [Bool.not_eq_true', Bool.not_eq_false, covered_eq_true]
  exact ⟨s, hs, by omega, by omega⟩

/-- A span in front of a text does not matter to it. -/
theorem kept_cons_of_le {s : Span} (h : s.stop ≤ pos) :
    kept (s :: spans) pos text = kept spans pos text := by
  refine List.filter_congr fun x hx => ?_
  have hb := Text.bounds_of_mem_placed hx
  have : s.holds x.1 = false := by
    rw [Bool.eq_false_iff, ne_eq, Span.holds_iff]
    omega
  simp only [covered, List.any_cons, this, Bool.false_or]

/-- Of the characters up to the end of the first span, those in front of it are kept. -/
theorem kept_cons {c : Span} {a b d : Text} (hc : c = ⟨pos + Text.byteSize a, Text.byteSize b⟩)
    (h : ∀ s ∈ spans, c.stop ≤ s.start) :
    kept (c :: spans) pos (a ++ b ++ d) = a.placed pos ++ kept spans c.stop d := by
  have hstart : c.start = pos + Text.byteSize a := by rw [hc]
  have hstop : c.stop = pos + Text.byteSize (a ++ b) := by
    rw [hc, Text.byteSize_append, ← Nat.add_assoc]
    rfl
  have hfront : kept (c :: spans) pos a = a.placed pos := by
    refine kept_eq_placed (List.forall_mem_cons.mpr ⟨Nat.le_of_eq hstart.symm, fun s hs => ?_⟩)
    have := h s hs
    have := c.start_le_stop
    omega
  have hcut : kept (c :: spans) (pos + Text.byteSize a) b = [] := by
    rw [Text.byteSize_append] at hstop
    exact kept_eq_nil List.mem_cons_self (Nat.le_of_eq hstart) (by omega)
  rw [kept_append, kept_append, hfront, hcut, List.append_nil, ← hstop,
    kept_cons_of_le (Nat.le_refl _)]

end Kept

/-! ## Applying the cuts -/

theorem removeSpan_append (a b w : Text) (s : Span) (ha : Text.byteSize a = s.start)
    (hb : Text.byteSize (a ++ b) = s.stop) : removeSpan (a ++ b ++ w) s = a ++ w := by
  rw [removeSpan, ← ha, ← hb, Text.dropBytes_byteSize_append, List.append_assoc,
    Text.takeBytes_byteSize_append]

theorem removeCuts_eq_outside {text : Text} {cuts : List Span} (h : ∀ s ∈ cuts, s.Aligned text)
    (hp : cuts.Pairwise fun a b => a.stop < b.start) :
    removeCuts text cuts = outside cuts text := by
  induction cuts with
  | nil =>
    rw [outside, kept_eq_placed (by simp), Text.map_snd_placed]
    rfl
  | cons c r ih =>
    obtain ⟨hc, hr⟩ := List.forall_mem_cons.mp h
    obtain ⟨hcr, hpr⟩ := List.pairwise_cons.mp hp
    have hstep : removeCuts text (c :: r) = removeSpan (removeCuts text r) c := rfl
    rw [hstep, ih hr hpr]
    obtain ⟨a, b, d, rfl, hcut⟩ := Span.aligned_iff_isStretch.mp hc
    have hstart : Text.byteSize a = c.start := by rw [hcut, Nat.zero_add]
    have hstop : Text.byteSize (a ++ b) = c.stop := by
      rw [hcut, Text.byteSize_append, Nat.zero_add, Span.stop]
    -- Up to the end of the first cut, the other cuts have left the text as it was.
    have hfront : kept r 0 (a ++ b) = (a ++ b).placed 0 := by
      refine kept_eq_placed fun s hs => ?_
      have := hcr s hs
      omega
    have hrest : outside r (a ++ b ++ d) = a ++ b ++ (kept r c.stop d).map Prod.snd := by
      rw [outside, kept_append, hfront, hstop, Nat.zero_add, List.map_append, Text.map_snd_placed]
    rw [hrest, removeSpan_append a b _ c hstart hstop, outside,
      kept_cons hcut fun s hs => Nat.le_of_lt (hcr s hs), List.map_append, Text.map_snd_placed]

/-- What is left of a text when spans are removed: the text outside the cuts, trimmed. -/
theorem value_removeSpans {text : Text} {spans : List Span} (h : ∀ s ∈ spans, s.Aligned text) :
    (removeSpans text spans).value =
      (outside (planCuts text spans) text).stripWhile isTrimmed := by
  rw [← removeCuts_eq_outside (covers_planCuts h).aligned (pairwise_planCuts h)]
  rfl

/-! ## What is lost -/

/-- A character outside the cuts is outside the spans, and one outside the spans that is not outside
    the cuts is a gap character. -/
theorem Covers.outside {text : Text} {l m : List Span} (h : Covers text l m) :
    (outside m text).Sublist (outside l text) ∧
      (outside m text).filter (fun c => !isGap c) =
        (outside l text).filter (fun c => !isGap c) := by
  constructor
  · have hsub : kept m 0 text = (kept l 0 text).filter fun x => !covered m x.1 := by
      rw [kept, kept, List.filter_filter]
      refine List.filter_congr fun x _ => ?_
      by_cases hl : covered l x.1 = true
      · simp [hl, h.covered_of_covered hl]
      · simp [hl]
    rw [Restriction.outside, Restriction.outside, hsub]
    exact List.filter_sublist.map Prod.snd
  · rw [Restriction.outside, Restriction.outside, List.filter_map, List.filter_map, kept, kept,
      List.filter_filter, List.filter_filter]
    congr 1
    refine List.filter_congr fun x hx => ?_
    by_cases hg : isGap x.2 = true
    · simp [hg]
    · by_cases hm : covered m x.1 = true
      · have hl := (h.gap x hx hm).resolve_right hg
        simp [hl, hm]
      · have hl : ¬ covered l x.1 = true := fun hl => hm (h.covered_of_covered hl)
        simp [hl, hm]

theorem outside_filter_pos (spans : List Span) (text : Text) :
    outside (spans.filter fun s => 0 < s.len) text = outside spans text := by
  simp only [outside, kept, covered_filter_pos]

/-- Nothing is left of the text of the spans. -/
theorem value_sublist_outside {text : Text} {spans : List Span} (h : ∀ s ∈ spans, s.Aligned text) :
    (removeSpans text spans).value.Sublist (outside spans text) := by
  have hsub := (covers_planCuts h).outside.1
  rw [outside_filter_pos] at hsub
  rw [value_removeSpans h]
  exact (Text.stripWhile_sublist isTrimmed _).trans hsub

/-- Of the text outside the spans only gap characters are removed. -/
theorem filter_value_eq_outside {text : Text} {spans : List Span}
    (h : ∀ s ∈ spans, s.Aligned text) :
    (removeSpans text spans).value.filter (fun c => !isGap c) =
      (outside spans text).filter (fun c => !isGap c) := by
  have hkeep := (covers_planCuts h).outside.2
  rw [outside_filter_pos] at hkeep
  rw [value_removeSpans h, Text.filter_stripWhile (fun c hc => by simp [isGap_of_isTrimmed hc]),
    hkeep]

/-- Whatever the order of the spans, all of their text is removed, and of the text outside them only
    gap characters are. -/
theorem removeSpans_keeps (text : Text) (spans : List Span) (h : ∀ s ∈ spans, s.Aligned text) :
    (removeSpans text spans).value.Sublist (outside spans text) ∧
      (removeSpans text spans).value.filter (fun c => !isGap c) =
        (outside spans text).filter (fun c => !isGap c) :=
  ⟨value_sublist_outside h, filter_value_eq_outside h⟩

/-- Spans that overlap, repeat, are empty or stand out of order: `é` and `tx` are left of
    `été  uno, dos  tres x`. -/
theorem removeSpans_keeps_out_of_order :
    let text : Text := "été  uno, dos  tres x".toList
    let spans : List Span := [⟨18, 4⟩, ⟨7, 3⟩, ⟨8, 2⟩, ⟨12, 3⟩, ⟨5, 0⟩, ⟨7, 3⟩, ⟨0, 3⟩]
    (∀ s ∈ spans, s.Aligned text) ∧
      (removeSpans text spans).value.Sublist "é  ,   tx".toList ∧
      (removeSpans text spans).value.filter (fun c => !isGap c) = "étx".toList := by
  intro text spans
  have h : ∀ s ∈ spans, s.Aligned text := by decide
  have hout : outside spans text = "é  ,   tx".toList := by decide
  obtain ⟨hsub, hkeep⟩ := removeSpans_keeps text spans h
  rw [hout] at hsub hkeep
  exact ⟨h, hsub, hkeep.trans (by decide)⟩

end TimePhrase.Restriction
